import ColumnSieve.Proofs.Plan.Transcript

/-!
# Which calls a plan makes

* `Query.calls`, `planCalls` — the calls that are made if nothing fails;
* `Orderly`, `FoundFirst`    — what holds of every transcript of a stage;
* `FetchProtocol`            — all that a plan keeps to when it asks a tool;
* `plan_fetches`             — whatever the tool does, a plan keeps to it.
-/

namespace ColumnSieve

/-! ## The calls in full -/

namespace Query

/-- The calls that a query leads to if nothing fails. -/
def calls (query : Query) (delimiter : Char) : List ToolCall :=
  .headers query.source delimiter ::
    query.names.map fun name => .values query.source name delimiter

theorem firstOccurrences_names (query : Query) : Distinct.FirstOccurrences
    (query.clauses.map Clause.column ++ [query.idColumn]) query.names := by
  have hid : [query.idColumn].eraseDups = [query.idColumn] :=
    Distinct.eraseDups_eq_self (List.nodup_singleton _)
  rw [names_eq, columns, ← hid, Distinct.eraseDups_append_eraseDups]
  exact Distinct.firstOccurrences_eraseDups _

theorem nodup_calls (query : Query) (delimiter : Char) : (query.calls delimiter).Nodup := by
  have hnames : query.names.Nodup := query.names_eq ▸ Distinct.nodup_eraseDups _
  refine List.nodup_cons.2 ⟨by simp, hnames.map ?_⟩
  intro name name' h
  exact (ToolCall.values.inj h).2.1

/-- Two clauses on one column fetch it once, and so do a clause and the identifiers. -/
example : (⟨"", ⟨"/samples.csv"⟩, "id", [⟨.union, "tissue", .equal, ["lung"]⟩,
    ⟨.intersect, "id", .notEqual, ["s1"]⟩, ⟨.union, "tissue", .equal, ["skin"]⟩]⟩ : Query).calls
    ';' =
      [.headers ⟨"/samples.csv"⟩ ';', .values ⟨"/samples.csv"⟩ "tissue" ';',
        .values ⟨"/samples.csv"⟩ "id" ';'] := by
  decide

end Query

/-- The calls that a plan makes if nothing fails. -/
def planCalls (queries : List Query) (target : Path) (options : Options) : List ToolCall :=
  queries.flatMap (fun query => query.calls options.metadataDelimiter) ++
    [.headers target options.delimiter]

/-! ## What holds of every such transcript -/

/-- The calls are the first of some calls, and all of them if the outcome is a success.  Only the
last of them can have failed, and then the outcome is its error. -/
structure Orderly {α : Type} (calls : List ToolCall) (transcript : List Exchange)
    (result : Except Error α) : Prop where
  isPrefix : transcript.map Exchange.call <+: calls
  complete : ∀ a, result = .ok a → transcript.map Exchange.call = calls
  failed_last : ∀ before exchange after e, transcript = before ++ exchange :: after →
    exchange.failure? = some e → after = [] ∧ result = .error e

/-- A column is asked for only behind headers of its table that name it, with nothing but other
columns of this table between. -/
def FoundFirst (transcript : List Exchange) : Prop :=
  ∀ before source name delimiter answer after,
    transcript = before ++ .values source name delimiter answer :: after →
      ∃ earlier headers between,
        before = earlier ++ .headers source delimiter (.ok headers) :: between ∧ name ∈ headers ∧
          ∀ exchange ∈ between, ∃ column answer',
            exchange = .values source column delimiter answer'

/-- A member of two lists in a row is one of the first or of the second. -/
theorem append_eq_append_cons_iff {α : Type} {first rest before after : List α} {a : α} :
    first ++ rest = before ++ a :: after ↔
      (∃ between, first = before ++ a :: between ∧ after = between ++ rest) ∨
        ∃ between, before = first ++ between ∧ rest = between ++ a :: after := by
  rw [List.append_eq_append_iff]
  constructor
  · rintro (⟨between, rfl, rfl⟩ | ⟨between, rfl, h⟩)
    · exact .inr ⟨between, rfl, rfl⟩
    · rcases List.cons_eq_append_iff.1 h with ⟨rfl, rfl⟩ | ⟨between, rfl, rfl⟩
      · exact .inr ⟨[], by simp, rfl⟩
      · exact .inl ⟨between, rfl, rfl⟩
  · rintro (⟨between, rfl, rfl⟩ | ⟨between, rfl, rfl⟩)
    · exact .inr ⟨a :: between, rfl, rfl⟩
    · exact .inl ⟨between, rfl, rfl⟩

namespace Orderly

variable {α β : Type} {calls calls' : List ToolCall} {first rest : List Exchange}
  {result : Except Error α}

theorem nil (h : ∀ a, result = .ok a → calls = []) : Orderly calls [] result :=
  ⟨List.nil_prefix, fun a ha => (h a ha).symm, fun before _ _ _ hsplit => by simp at hsplit⟩

/-- After a success no call has failed. -/
theorem failure?_eq_none {a : α} (h : Orderly calls first (.ok a)) {exchange : Exchange}
    (hmem : exchange ∈ first) : exchange.failure? = none := by
  obtain ⟨before, after, hsplit⟩ := List.append_of_mem hmem
  by_contra hfailure
  obtain ⟨e, he⟩ := Option.ne_none_iff_exists'.1 hfailure
  cases (h.failed_last before exchange after e hsplit he).2

/-- After a success it goes on with other calls. -/
theorem append {b : β} (h : Orderly calls first (.ok b)) (h' : Orderly calls' rest result) :
    Orderly (calls ++ calls') (first ++ rest) result := by
  have hfirst := h.complete b rfl
  constructor
  · rw [List.map_append, hfirst]
    exact (List.prefix_append_right_inj calls).2 h'.isPrefix
  · intro a ha
    rw [List.map_append, hfirst, h'.complete a ha]
  · intro before exchange after e hsplit hfailure
    rcases append_eq_append_cons_iff.1 hsplit with ⟨between, hbetween, -⟩ | ⟨between, -, hbetween⟩
    · have hnone : exchange.failure? = none := h.failure?_eq_none (by simp [hbetween])
      cases hnone.symm.trans hfailure
    · exact h'.failed_last between exchange after e hbetween hfailure

/-- After a failure it does not go on. -/
theorem stop {e : Error} (h : Orderly calls first (.error e : Except Error α)) :
    Orderly (calls ++ calls') first (.error e : Except Error β) := by
  refine ⟨h.isPrefix.trans (List.prefix_append _ _), nofun, ?_⟩
  intro before exchange after e' hsplit hfailure
  obtain ⟨hafter, ⟨⟩⟩ := h.failed_last before exchange after e' hsplit hfailure
  exact ⟨hafter, rfl⟩

theorem single {exchange : Exchange} (h : ∀ e, exchange.failure? = some e → result = .error e) :
    Orderly [exchange.call] [exchange] result := by
  refine ⟨List.prefix_rfl, fun _ _ => rfl, ?_⟩
  intro before other after e hsplit hfailure
  rcases List.cons_eq_append_iff.1 hsplit with ⟨rfl, hother⟩ | ⟨_, _, hnil⟩
  · cases hother
    exact ⟨rfl, h e hfailure⟩
  · simp at hnil

/-- A call that fails; those behind it are not made. -/
theorem failed {exchange : Exchange} {call : ToolCall} {e : Error} (hcall : exchange.call = call)
    (h : exchange.failure? = some e) :
    Orderly (call :: calls) [exchange] (.error e : Except Error α) := by
  subst hcall
  refine (single (α := α) ?_).stop
  intro e' h'
  cases h.symm.trans h'
  rfl

/-- A call that succeeds, with what comes behind it. -/
theorem answered {exchange : Exchange} {call : ToolCall} (hcall : exchange.call = call)
    (h : exchange.failure? = none) (hrest : Orderly calls rest result) :
    Orderly (call :: calls) (exchange :: rest) result := by
  subst hcall
  have hfirst : Orderly [exchange.call] [exchange] (.ok () : Except Error Unit) := by
    apply single
    intro e h'
    cases h.symm.trans h'
  exact hfirst.append hrest

/-- After a failure the kind of success does not matter. -/
theorem of_error {e : Error} (h : Orderly calls first (.error e : Except Error α)) :
    Orderly calls first (.error e : Except Error β) := by
  have hstop : Orderly (calls ++ []) first (.error e : Except Error β) := h.stop
  rwa [List.append_nil] at hstop

/-- After a success nothing is left to ask, whatever is made of the answers. -/
theorem of_ok {b : β} (h : Orderly calls first (.ok b)) : Orderly calls first result := by
  have hrest : Orderly (calls ++ []) (first ++ []) result := h.append (.nil fun _ _ => rfl)
  rwa [List.append_nil, List.append_nil] at hrest

theorem map (f : α → β) (h : Orderly calls first result) :
    Orderly calls first (result.map f) := by
  cases result with
  | error e => exact h.of_error
  | ok a => exact h.of_ok

end Orderly

namespace FoundFirst

variable {first rest : List Exchange}

theorem nil : FoundFirst [] := by
  intro before source name delimiter answer after hsplit
  simp at hsplit

theorem append (h : FoundFirst first) (h' : FoundFirst rest) : FoundFirst (first ++ rest) := by
  intro before source name delimiter answer after hsplit
  rcases append_eq_append_cons_iff.1 hsplit with ⟨between, hbetween, -⟩ | ⟨between, rfl, hbetween⟩
  · exact h before source name delimiter answer between hbetween
  · obtain ⟨earlier, headers, between, rfl, hfound⟩ :=
      h' between source name delimiter answer after hbetween
    exact ⟨first ++ earlier, headers, between, by simp, hfound⟩

/-- Columns of one table behind its headers. -/
theorem of_columns {source : Path} {delimiter : Char} {headers : List String}
    {transcript : List Exchange} (h : ∀ exchange ∈ transcript, ∃ name ∈ headers, ∃ answer,
      exchange = .values source name delimiter answer) :
    FoundFirst (.headers source delimiter (.ok headers) :: transcript) := by
  intro before source' name delimiter' answer after hsplit
  rcases List.cons_eq_append_iff.1 hsplit with ⟨-, hhead⟩ | ⟨between, rfl, rfl⟩
  · cases hhead
  · obtain ⟨name', hname, answer', ⟨⟩⟩ := h (.values source' name delimiter' answer) (by simp)
    refine ⟨[], headers, between, rfl, hname, ?_⟩
    intro exchange hmem
    obtain ⟨column, -, answer', rfl⟩ := h exchange (by simp [hmem])
    exact ⟨column, answer', rfl⟩

theorem of_headers {source : Path} {delimiter : Char} {answer : Except Error (List String)} :
    FoundFirst [.headers source delimiter answer] := by
  intro before source' name delimiter' answer' after hsplit
  rcases List.cons_eq_append_iff.1 hsplit with ⟨-, hhead⟩ | ⟨between, rfl, hnil⟩
  · cases hhead
  · simp at hnil

end FoundFirst

/-! ## Stage by stage -/

theorem FetchTranscript.orderly {source : Path} {delimiter : Char} {headers names : List String}
    {columns : Columns} {transcript : List Exchange} {result : Except Error Columns}
    (h : FetchTranscript source delimiter headers names columns transcript result) :
    Orderly (names.map fun name => .values source name delimiter) transcript result := by
  induction h with
  | done => exact .nil fun _ _ => rfl
  | absent => exact .nil nofun
  | refused => exact .failed rfl rfl
  | fetched _ _ ih => exact .answered rfl rfl ih

theorem FetchTranscript.values_of_mem {source : Path} {delimiter : Char}
    {headers names : List String} {columns : Columns} {transcript : List Exchange}
    {result : Except Error Columns}
    (h : FetchTranscript source delimiter headers names columns transcript result) :
    ∀ exchange ∈ transcript, ∃ name ∈ headers, ∃ answer,
      exchange = .values source name delimiter answer := by
  induction h with
  | done => exact List.forall_mem_nil _
  | absent => exact List.forall_mem_nil _
  | refused hname => exact List.forall_mem_singleton.2 ⟨_, hname, _, rfl⟩
  | fetched hname _ ih => exact List.forall_mem_cons.2 ⟨⟨_, hname, _, rfl⟩, ih⟩

theorem QueryTranscript.orderly {query : Query} {delimiter : Char} {transcript : List Exchange}
    {result : Except Error (List String)} (h : QueryTranscript query delimiter transcript result) :
    Orderly (query.calls delimiter) transcript result ∧ FoundFirst transcript := by
  cases h with
  | refused => exact ⟨.failed rfl rfl, .of_headers⟩
  | unfetched hfetched =>
    exact ⟨.answered rfl rfl hfetched.orderly.of_error, .of_columns hfetched.values_of_mem⟩
  | evaluated hfetched =>
    exact ⟨.answered rfl rfl hfetched.orderly.of_ok, .of_columns hfetched.values_of_mem⟩

theorem QueriesTranscript.orderly {delimiter : Char} {queries : List Query}
    {transcript : List Exchange} {result : Except Error (List (List String))}
    (h : QueriesTranscript delimiter queries transcript result) :
    Orderly (queries.flatMap fun query => query.calls delimiter) transcript result ∧
      FoundFirst transcript := by
  induction h with
  | done => exact ⟨.nil fun _ _ => rfl, .nil⟩
  | stopped hquery =>
    exact ⟨hquery.orderly.1.stop, hquery.orderly.2⟩
  | next hquery _ ih =>
    exact ⟨hquery.orderly.1.append (ih.1.map _), hquery.orderly.2.append ih.2⟩

/-- What a plan keeps to when it asks a tool. -/
structure FetchProtocol (queries : List Query) (target : Path) (options : Options)
    (transcript : List Exchange) (outcome : Except Error Plan) : Prop
    extends Orderly (planCalls queries target options) transcript outcome where
  /-- The columns that a query asks for are those of its clauses and that of its identifiers, each
  once, in the order of their first use. -/
  names_in_order : ∀ query ∈ queries, Distinct.FirstOccurrences
    (query.clauses.map Clause.column ++ [query.idColumn]) query.names
  /-- A column is asked for at most once for each query. -/
  nodup_calls : ∀ query ∈ queries, (query.calls options.metadataDelimiter).Nodup
  found_first : FoundFirst transcript
  extracts_nothing : ∀ source spec delimiter destination answer,
    .extract source spec delimiter destination answer ∉ transcript
  /-- The outcome is the plan, or the error of the first failure, behind which nothing is asked. -/
  isTranscript : PlanTranscript queries target options transcript outcome

theorem PlanTranscript.protocol {queries : List Query} {target : Path} {options : Options}
    {transcript : List Exchange} {outcome : Except Error Plan}
    (h : PlanTranscript queries target options transcript outcome) :
    FetchProtocol queries target options transcript outcome := by
  have hcalls : Orderly (planCalls queries target options) transcript outcome ∧
      FoundFirst transcript := by
    cases h with
    | stopped hqueries => exact ⟨hqueries.orderly.1.stop, hqueries.orderly.2⟩
    | refused hqueries =>
      exact ⟨hqueries.orderly.1.append (.failed rfl rfl), hqueries.orderly.2.append .of_headers⟩
    | unselected hqueries hselection =>
      exact ⟨hqueries.orderly.1.append (.answered rfl rfl (.nil nofun)),
        hqueries.orderly.2.append .of_headers⟩
    | made hqueries hselection =>
      exact ⟨hqueries.orderly.1.append (.answered rfl rfl (.nil fun _ _ => rfl)),
        hqueries.orderly.2.append .of_headers⟩
  refine ⟨hcalls.1, fun query _ => query.firstOccurrences_names, fun query _ => query.nodup_calls _,
    hcalls.2, ?_, h⟩
  intro source spec delimiter destination answer hmem
  have hcall := hcalls.1.isPrefix.subset (List.mem_map_of_mem hmem)
  simp [planCalls, Query.calls, Exchange.call] at hcall

/-- **Whatever the tool does, a plan keeps to the protocol.**  The transcript of a plan can be kept
without any effect on the plan.  If the target is a file, its calls are the first of those that are
planned, and all of them if a plan is made; a column is asked for only once for a query, and only
when it has been found among the headers of its table; nothing is asked behind the first failure, be
it of a call, of the look-up or of the evaluation, and the outcome is the error of that failure.  If
the target is not a file, nothing is asked at all. -/
theorem plan_fetches {τ : Type} (tool : Tool τ) (queries : List Query) (target : Path)
    (options : Options) (world : World τ) :
    ∃ transcript,
      plan tool.transcribing queries target options ⟨world.files, (world.tool, [])⟩ =
        ((plan tool queries target options world).1,
          ⟨(plan tool queries target options world).2.files,
            ((plan tool queries target options world).2.tool, transcript)⟩) ∧
      plan tool.recording queries target options ⟨world.files, (world.tool, [])⟩ =
        ((plan tool queries target options world).1,
          ⟨(plan tool queries target options world).2.files,
            ((plan tool queries target options world).2.tool, transcript.map Exchange.call)⟩) ∧
      if world.files.isFile target then
        FetchProtocol queries target options transcript (plan tool queries target options world).1
      else
        transcript = [] ∧
          plan tool queries target options world = (.error (.sourceNotFound target), world) := by
  obtain ⟨transcript, htranscript, hcalls⟩ := plan_transcribing tool queries target options world
  refine ⟨transcript, htranscript, hcalls, ?_⟩
  split
  · rename_i hfile
    obtain ⟨added, hadded, hplan⟩ := plan_writes tool queries target options
      ⟨world.files, (world.tool, [])⟩ hfile
    rw [htranscript] at hadded hplan
    obtain rfl : transcript = added := hadded
    exact hplan.protocol
  · rename_i hfile
    have hnone (σ : Type) (other : Tool σ) (state : σ) :
        plan other queries target options ⟨world.files, state⟩ =
          (.error (.sourceNotFound target), ⟨world.files, state⟩) := if_neg hfile
    have hempty := congrArg (fun outcome => outcome.2.tool.2) htranscript
    rw [hnone] at hempty
    exact ⟨hempty.symm, hnone τ tool world.tool⟩

end ColumnSieve
