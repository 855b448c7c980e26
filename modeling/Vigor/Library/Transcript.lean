/-!
# Transcripts of call sequences

A component is a function from a call and a state to a reply and a new state.
Its transcript for a list of calls is the list of replies.  A concrete
component refines an abstract one when a relation between their states makes
every permitted call give equal replies and keeps the relation; the
transcripts of whole runs then agree.
-/

namespace Transcript

/-- Replies to a list of calls, in order, and the state after them. -/
def run (exec : γ → σ → ρ × σ) : List γ → σ → List ρ × σ
  | [], state => ([], state)
  | call :: calls, state =>
      let (reply, following) := exec call state
      let (replies, final) := run exec calls following
      (reply :: replies, final)

@[simp] theorem run_nil
    (exec : γ → σ → ρ × σ)
    (state : σ) :
    run exec [] state = ([], state) := rfl

theorem run_cons
    (exec : γ → σ → ρ × σ)
    (call : γ)
    (calls : List γ)
    (state : σ) :
    run exec (call :: calls) state =
      ((exec call state).1 :: (run exec calls (exec call state).2).1,
        (run exec calls (exec call state).2).2) := rfl

/-- Every call of the list is allowed in the state in which it is made. -/
def Permitted
    (allowed : γ → σ → Prop)
    (exec : γ → σ → ρ × σ) : List γ → σ → Prop
  | [], _ => True
  | call :: calls, state =>
      allowed call state ∧ Permitted allowed exec calls (exec call state).2

theorem run_append
    (exec : γ → σ → ρ × σ)
    (first second : List γ)
    (state : σ) :
    run exec (first ++ second) state =
      ((run exec first state).1 ++ (run exec second (run exec first state).2).1,
        (run exec second (run exec first state).2).2) := by
  induction first generalizing state with
  | nil => rfl
  | cons call calls ih =>
      rw [List.cons_append, run_cons, ih]
      rfl

/-- The property holds in every state of the run, from the first to the last. -/
def Always
    (holds : σ → Prop)
    (exec : γ → σ → ρ × σ) : List γ → σ → Prop
  | [], state => holds state
  | call :: calls, state => holds state ∧ Always holds exec calls (exec call state).2

variable {exec : γ → σ → ρ × σ} {calls : List γ} {holds : σ → Prop} {state : σ}

theorem Always.start (always : Always holds exec calls state) :
    holds state := by
  cases calls with
  | nil => exact always
  | cons call calls => exact always.1

/-- Every state of the run is the last one of a part of the run. -/
theorem always_iff :
    Always holds exec calls state ↔
      ∀ first rest, first ++ rest = calls → holds (run exec first state).2 := by
  induction calls generalizing state with
  | nil =>
      refine ⟨fun now first rest whole => ?_, fun every => every [] [] rfl⟩
      obtain ⟨rfl, rfl⟩ := List.append_eq_nil_iff.mp whole
      exact now
  | cons call calls ih =>
      rw [Always, ih]
      constructor
      · rintro ⟨now, later⟩ first rest whole
        cases first with
        | nil => exact now
        | cons other first =>
            obtain ⟨rfl, remaining⟩ := List.cons.inj whole
            exact later first rest remaining
      · intro every
        exact ⟨every [] _ rfl, fun first rest whole =>
          every (call :: first) rest (congrArg (call :: ·) whole)⟩

theorem always_append :
    Always holds exec (first ++ second) state ↔
      Always holds exec first state ∧
        Always holds exec second (run exec first state).2 := by
  induction first generalizing state with
  | nil => exact ⟨fun always => ⟨always.start, always⟩, And.right⟩
  | cons call calls ih =>
      rw [List.cons_append, Always, Always, ih, and_assoc]
      rfl

theorem permitted_of_forall
    (always : ∀ call ∈ calls, ∀ state, allowed call state)
    (state : σ) :
    Permitted allowed exec calls state := by
  induction calls generalizing state with
  | nil => trivial
  | cons call calls ih =>
      exact ⟨always call List.mem_cons_self state, ih
        (fun later member => always later (List.mem_cons_of_mem _ member)) _⟩

theorem Permitted.imp_of_mem
    (permitted : Permitted allowed exec calls state)
    (implies : ∀ call ∈ calls, ∀ state, allowed call state → also call state) :
    Permitted also exec calls state := by
  induction calls generalizing state with
  | nil => trivial
  | cons call calls ih =>
      exact ⟨implies call List.mem_cons_self state permitted.1,
        ih permitted.2 fun later member =>
          implies later (List.mem_cons_of_mem _ member)⟩

@[simp] theorem length_run
    (exec : γ → σ → ρ × σ)
    (calls : List γ)
    (state : σ) :
    (run exec calls state).1.length = calls.length := by
  induction calls generalizing state with
  | nil => rfl
  | cons call calls ih => exact congrArg (· + 1) (ih (exec call state).2)

theorem run_state
    (exec : γ → σ → ρ × σ)
    (calls : List γ)
    (state : σ) :
    (run exec calls state).2 =
      calls.foldl (fun state call => (exec call state).2) state := by
  induction calls generalizing state with
  | nil => rfl
  | cons call calls ih => exact ih (exec call state).2

theorem split_concat
    {items before after : List γ}
    {last item : γ}
    (split : items ++ [last] = before ++ item :: after) :
    (items = before ∧ last = item ∧ after = []) ∨
      ∃ rest, items = before ++ item :: rest ∧ after = rest ++ [last] := by
  rcases List.eq_nil_or_concat after with rfl | ⟨rest, final, rfl⟩
  · obtain ⟨same, sameLast⟩ := List.append_inj' split rfl
    exact .inl ⟨same, (List.cons.inj sameLast).1, rfl⟩
  · rw [List.concat_eq_append, ← List.cons_append, ← List.append_assoc] at split
    obtain ⟨same, sameLast⟩ := List.append_inj' split rfl
    refine .inr ⟨rest, same, ?_⟩
    rw [sameLast, List.concat_eq_append]

theorem calls_of_zip_run
    (split : calls.zip (run exec calls state).1 =
      before ++ (call, reply) :: after) :
    before.map Prod.fst ++ call :: after.map Prod.fst = calls := by
  have firsts := congrArg (List.map Prod.fst) split
  rw [List.map_fst_zip (Nat.le_of_eq (length_run _ _ _).symm)] at firsts
  simpa using firsts.symm

theorem reply_of_zip_run
    (split : calls.zip (run exec calls state).1 =
      before ++ (call, reply) :: after) :
    reply = (exec call (run exec (before.map Prod.fst) state).2).1 := by
  induction calls generalizing state before with
  | nil => simp at split
  | cons first calls ih =>
      rw [run_cons, List.zip_cons_cons] at split
      cases before with
      | nil =>
          obtain ⟨rfl, rfl⟩ := Prod.mk.inj (List.cons.inj split).1
          rfl
      | cons pair before =>
          obtain ⟨rfl, rest⟩ := List.cons.inj split
          have later := ih rest
          exact later

theorem run_refines
    (related : σ → τ → Prop)
    (step : ∀ call concrete abstract, related concrete abstract →
      allowed call abstract →
        (exec call concrete).1 = (spec call abstract).1 ∧
          related (exec call concrete).2 (spec call abstract).2)
    (initially : related concrete abstract)
    (permitted : Permitted allowed spec calls abstract) :
    (run exec calls concrete).1 = (run spec calls abstract).1 ∧
      related (run exec calls concrete).2 (run spec calls abstract).2 := by
  induction calls generalizing concrete abstract with
  | nil => exact ⟨rfl, initially⟩
  | cons call calls ih =>
      obtain ⟨allowedNow, allowedLater⟩ := permitted
      obtain ⟨sameReply, kept⟩ := step call concrete abstract initially allowedNow
      obtain ⟨sameReplies, finally_⟩ := ih kept allowedLater
      rw [run_cons, run_cons]
      exact ⟨by rw [sameReply, sameReplies], finally_⟩

theorem timed_run_refines
    [LE T]
    (clock : γ → T)
    (related : T → σ → τ → Prop)
    (mono : ∀ {now later concrete abstract}, now ≤ later →
      related now concrete abstract → related later concrete abstract)
    (step : ∀ call concrete abstract, related (clock call) concrete abstract →
      allowed call concrete →
        (exec call concrete).1 = (spec call abstract).1 ∧
          related (clock call) (exec call concrete).2 (spec call abstract).2)
    (ordered : calls.Pairwise fun earlier later => clock earlier ≤ clock later)
    (initially : ∀ call ∈ calls, related (clock call) concrete abstract)
    (permitted : Permitted allowed exec calls concrete) :
    (run exec calls concrete).1 = (run spec calls abstract).1 ∧
      ∀ last, (∀ call ∈ calls, clock call ≤ last) →
        related last concrete abstract →
          related last (run exec calls concrete).2
            (run spec calls abstract).2 := by
  induction calls generalizing concrete abstract with
  | nil => exact ⟨rfl, fun _ _ kept => kept⟩
  | cons call calls ih =>
      obtain ⟨notBefore, restOrdered⟩ := List.pairwise_cons.mp ordered
      obtain ⟨sameReply, kept⟩ := step call concrete abstract
        (initially call List.mem_cons_self) permitted.1
      obtain ⟨sameReplies, keptLast⟩ := ih restOrdered
        (fun later member => mono (notBefore later member) kept) permitted.2
      rw [run_cons, run_cons, sameReply, sameReplies]
      refine ⟨rfl, fun last isLast _ => ?_⟩
      obtain ⟨here, later⟩ := List.forall_mem_cons.mp isLast
      exact keptLast last later (mono here kept)

end Transcript
