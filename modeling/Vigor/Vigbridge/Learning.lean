import Vigor.FlowTable.Ledger
import Vigor.Library.GapRuns
import Vigor.Map.Refinement
import Vigor.Vigbridge.Impl
import Mathlib.Data.Set.Card

/-!
# What the bridge has learned

The table of the bridge is a ledger of devices.  For each address it holds the
device of the first frame of the current activity period of the address, and the
time of the last one.  The decision for a frame follows from the history of
frames alone.
-/

namespace Vigor
namespace Vigbridge

open GapRuns

/-! ## Histories -/

/-- The frames from a source. -/
def framesOf
    (source : ℕ)
    (history : List Reception) : List Reception :=
  history.filter fun reception => reception.sAddr = source

/-- A maximal run of frames from the source, with gaps up to the expiration time
and a last frame that is at most that old. -/
def ActivityPeriod
    (expiration now : ℤ)
    (history : List Reception)
    (source : ℕ)
    (period : List Reception) : Prop :=
  Maximal Reception.now expiration (framesOf source history) period ∧
    ∀ last ∈ period.getLast?, now - last.now ≤ expiration

/-- The source has a current activity period. -/
def Active
    (expiration now : ℤ)
    (history : List Reception)
    (source : ℕ) : Prop :=
  ∃ period, ActivityPeriod expiration now history source period

/-- The expiration time in nanoseconds. -/
def Config.expiration (config : Config) : ℤ := config.expirationTime * 1000

/-- The target of a static rule. -/
def staticTarget
    (rules : List (StaticKey × ℤ))
    (key : StaticKey) : Option ℤ :=
  (rules.find? fun rule => rule.1 = key).map Prod.snd

/-- The device that a frame goes to after the frames before it.  The frame is
itself part of the history. -/
structure Decision
    (config : Config)
    (rules : List (StaticKey × ℤ))
    (before : List Reception)
    (frame : Reception)
    (dstDevice : ℤ) : Prop where
  filtered : staticTarget rules ⟨frame.dAddr, frame.device⟩ = some (-2) →
    dstDevice = frame.device
  static : ∀ target, staticTarget rules ⟨frame.dAddr, frame.device⟩ = some target →
    target ≠ -2 → dstDevice = target
  learned : staticTarget rules ⟨frame.dAddr, frame.device⟩ = none →
    ∀ period, ActivityPeriod config.expiration frame.now (before ++ [frame]) frame.dAddr
      period → ∀ first ∈ period.head?, dstDevice = first.device
  flooded : staticTarget rules ⟨frame.dAddr, frame.device⟩ = none →
    ¬ Active config.expiration frame.now (before ++ [frame]) frame.dAddr →
      dstDevice = floodFrame

/-- Whenever a source without a current activity period sends a frame, fewer
addresses than the dynamic table can hold have one. -/
def NeverFull
    (config : Config)
    (receptions : List Reception) : Prop :=
  ∀ before frame after, receptions = before ++ frame :: after →
    ¬ Active config.expiration frame.now before frame.sAddr →
      {source | Active config.expiration frame.now before source}.ncard < config.dynCapacity

/-! ## The latest period -/

/-- The entry for a run of frames of one source. -/
def entryOf
    (source : ℕ)
    (period : List Reception) : Option (Ledger.Entry ℕ ℕ) := do
  let first ← period.head?
  let last ← period.getLast?
  some ⟨source, first.device, last.now⟩

/-- The entry of a source after a history, if it is not too old. -/
def known
    (expiration now : ℤ)
    (history : List Reception)
    (source : ℕ) :
    Option (Ledger.Entry ℕ ℕ) :=
  (entryOf source (latest Reception.now expiration (framesOf source history))).filter
    fun entry => now - expiration ≤ entry.time

theorem framesOf_concat_self
    (history : List Reception)
    (frame : Reception) :
    framesOf frame.sAddr (history ++ [frame]) =
      framesOf frame.sAddr history ++ [frame] := by
  simp [framesOf]

theorem framesOf_concat_of_ne
    (different : source ≠ frame.sAddr)
    (history : List Reception) :
    framesOf source (history ++ [frame]) = framesOf source history := by
  simp [framesOf, Ne.symm different]

section Periods

variable {expiration now : ℤ} {history : List Reception} {source : ℕ}

variable {period : List Reception}

/-- The entry of a run with its first and its last frame. -/
theorem entryOf_eq
    (isFirst : period.head? = some first)
    (isLast : period.getLast? = some last)
    (source : ℕ) :
    entryOf source period = some ⟨source, first.device, last.now⟩ := by
  rw [entryOf, isFirst, isLast]
  rfl

theorem exists_ends (nonempty : period ≠ []) :
    ∃ first last, period.head? = some first ∧ period.getLast? = some last := by
  obtain ⟨first, isFirst⟩ :=
    Option.isSome_iff_exists.mp (List.isSome_head?.mpr nonempty)
  obtain ⟨last, isLast⟩ :=
    Option.isSome_iff_exists.mp (List.getLast?_isSome.mpr nonempty)
  exact ⟨first, last, isFirst, isLast⟩

theorem ActivityPeriod.known_eq
    (current : ActivityPeriod expiration now history source period)
    (past : ∀ frame ∈ history, frame.now ≤ now) :
    ∃ first last, period.head? = some first ∧ period.getLast? = some last ∧
      known expiration now history source =
        some ⟨source, first.device, last.now⟩ := by
  obtain ⟨maximal, recent⟩ := current
  obtain ⟨first, last, isFirst, isLast⟩ := exists_ends maximal.nonempty
  have isLatest := maximal.eq_latest
    (fun frame member => past frame (List.mem_filter.mp member).1) recent
  refine ⟨first, last, isFirst, isLast, ?_⟩
  rw [known, ← isLatest, entryOf_eq isFirst isLast, Option.filter_some, if_pos]
  have := recent last isLast
  exact decide_eq_true (by dsimp only; omega)

theorem active_of_known
    (found : known expiration now history source = some entry) :
    Active expiration now history source := by
  obtain ⟨isEntry, recent⟩ := Option.filter_eq_some_iff.mp found
  have nonempty : framesOf source history ≠ [] := by
    intro none
    rw [none] at isEntry
    cases isEntry
  have maximal := maximal_latest Reception.now expiration nonempty
  refine ⟨_, maximal, fun last isLast => ?_⟩
  obtain ⟨first, _, isFirst, _⟩ := exists_ends maximal.nonempty
  rw [entryOf_eq isFirst isLast] at isEntry
  obtain rfl := Option.some.inj isEntry
  have := of_decide_eq_true recent
  dsimp only at this
  omega

theorem active_iff (past : ∀ frame ∈ history, frame.now ≤ now) :
    Active expiration now history source ↔
      known expiration now history source ≠ none := by
  constructor
  · rintro ⟨period, current⟩
    obtain ⟨first, last, _, _, found⟩ := current.known_eq past
    simp [found]
  · intro found
    obtain ⟨entry, isEntry⟩ := Option.ne_none_iff_exists'.mp found
    exact active_of_known isEntry

theorem Active.mem (active : Active expiration now history source) :
    source ∈ history.map Reception.sAddr := by
  obtain ⟨period, maximal, _⟩ := active
  obtain ⟨before, after, split, _⟩ := maximal.bounded
  obtain ⟨first, isFirst⟩ := List.exists_mem_of_ne_nil period maximal.nonempty
  have member : first ∈ framesOf source history := by
    rw [split]
    simp [isFirst]
  obtain ⟨inHistory, isSource⟩ := List.mem_filter.mp member
  exact List.mem_map.mpr ⟨first, inHistory, of_decide_eq_true isSource⟩

theorem neverFull_of_length_le (fits : receptions.length ≤ config.dynCapacity) :
    NeverFull config receptions := by
  rintro before frame after rfl _
  have subset : {source | Active config.expiration frame.now before source} ⊆
      ((before.map Reception.sAddr).toFinset : Set ℕ) := by
    intro source active
    simpa using Active.mem active
  calc _ ≤ ((before.map Reception.sAddr).toFinset : Set ℕ).ncard :=
        Set.ncard_le_ncard subset (Finset.finite_toSet _)
    _ ≤ (before.map Reception.sAddr).length := by
        rw [Set.ncard_coe_finset]
        exact List.toFinset_card_le _
    _ < config.dynCapacity := by
        rw [List.length_map]
        simp only [List.length_append, List.length_cons] at fits
        omega

theorem known_later
    {later : ℤ}
    (le : now ≤ later) :
    (known expiration now history source).filter
        (fun entry => later - expiration ≤ entry.time) =
      known expiration later history source := by
  rw [known, known, Option.filter_filter]
  congr 1
  funext entry
  rw [← Bool.decide_and]
  exact decide_eq_decide.mpr (by omega)

theorem known_concat_of_ne (different : source ≠ frame.sAddr) :
    known expiration now (history ++ [frame]) source =
      known expiration now history source := by
  rw [known, known, framesOf_concat_of_ne different]

theorem known_concat_self
    (notNegative : 0 ≤ expiration)
    (frame : Reception) :
    known expiration frame.now (history ++ [frame]) frame.sAddr =
      some ⟨frame.sAddr,
        (known expiration frame.now history frame.sAddr).elim frame.device
          Ledger.Entry.data,
        frame.now⟩ := by
  rw [known, framesOf_concat_self, latest_concat, extendRun, known]
  cases shape : latest Reception.now expiration (framesOf frame.sAddr history) with
  | nil => simp [entryOf, notNegative]
  | cons head rest =>
      obtain ⟨first, last, isFirst, isLast⟩ := exists_ends (List.cons_ne_nil head rest)
      rw [entryOf_eq isFirst isLast, isLast, Option.filter_some]
      by_cases near : Near Reception.now expiration last frame
      · have recent : frame.now - expiration ≤ last.now := by
          rw [Near] at near
          omega
        have stillFirst : (head :: rest ++ [frame]).head? = some first := by
          simpa using isFirst
        have isLatest : (head :: rest ++ [frame]).getLast? = some frame := List.getLast?_concat
        rw [if_pos (by simpa using near), entryOf_eq stillFirst isLatest,
          if_pos (decide_eq_true recent)]
        simp [notNegative]
      · have old : ¬ frame.now - expiration ≤ last.now := by
          rw [Near] at near
          omega
        rw [if_neg (by simpa using near), if_neg (by simp only [decide_eq_true_eq]; exact old)]
        simp [entryOf, notNegative]

end Periods

/-! ## The bridge on a ledger -/

section Ledgers

variable (config : Config) (rules : List (StaticKey × ℤ))

/-- `bridge_get_device` on the ledger of devices. -/
def ledgerDevice
    (dst srcDevice : ℕ)
    (ledger : Ledger ℕ ℕ) : ℤ :=
  match staticTarget rules ⟨dst, srcDevice⟩ with
  | some target => target
  | none => (ledger.find dst).elim (-1) fun entry => entry.data

/-- `nf_process` on the ledger of devices. -/
def ledgerStep
    (reception : Reception)
    (ledger : Ledger ℕ ℕ) : ℤ × Ledger ℕ ℕ :=
  let ledger := (ledger.expire (reception.now - config.expiration)).ensure config.dynCapacity
    reception.sAddr reception.device reception.now
  let forwardTo := ledgerDevice rules reception.dAddr reception.device ledger
  (if forwardTo = -1 then floodFrame
    else if forwardTo = -2 then reception.device
    else forwardTo, ledger)

variable {config rules}

/-- What becomes of a frame, by the device that was decided. -/
theorem ledgerStep_eq
    (decided : ledgerDevice rules reception.dAddr reception.device
      (ledgerStep config rules reception ledger).2 = forwardTo) :
    (ledgerStep config rules reception ledger).1 =
      if forwardTo = -1 then floodFrame
      else if forwardTo = -2 then (reception.device : ℤ)
      else forwardTo := by
  rw [← decided]
  rfl

variable (rules)

/-- The entries that are not too old are what is known from the history. -/
def Remembers
    (config : Config)
    (history : List Reception)
    (ledger : Ledger ℕ ℕ) : Prop :=
  ∀ later, (∀ frame ∈ history, frame.now ≤ later) → ∀ source,
    (ledger.expire (later - config.expiration)).find source =
      known config.expiration later history source

theorem Config.expiration_nonneg (config : Config) : 0 ≤ config.expiration := by
  rw [Config.expiration]
  omega

section

variable
  {history : List Reception} {ledger : Ledger ℕ ℕ} (remembers : Remembers config history ledger)

include remembers

/-- The entries are those of the active sources. -/
theorem Remembers.size_eq (past : ∀ frame ∈ history, frame.now ≤ later) :
    (ledger.expire (later - config.expiration)).size =
      {source | Active config.expiration later history source}.ncard := by
  have active : {source | Active config.expiration later history source} =
      ((ledger.expire (later - config.expiration)).entries.map Ledger.Entry.key).toFinset := by
    ext source
    rw [Set.mem_ofPred_eq, active_iff past,
      ← remembers later past source, ne_eq, Ledger.find_eq_none_iff]
    simp
  rw [active, Set.ncard_coe_finset,
    List.toFinset_card_of_nodup (Ledger.nodup _), List.length_map, Ledger.size]

variable {frame : Reception}
  (past : ∀ earlier ∈ history, earlier.now ≤ frame.now)
  (room : ¬ Active config.expiration frame.now history frame.sAddr →
    {source | Active config.expiration frame.now history source}.ncard < config.dynCapacity)

include past room

theorem Remembers.find_ledgerStep (source : ℕ) :
    (ledgerStep config rules frame ledger).2.find source =
      known config.expiration frame.now (history ++ [frame]) source := by
  have before := remembers frame.now past
  dsimp only [ledgerStep]
  by_cases same : source = frame.sAddr
  · rw [same, known_concat_self config.expiration_nonneg, Ledger.find_ensure_self, before]
    intro absent
    rw [before] at absent
    rw [remembers.size_eq past]
    exact room fun active => (active_iff past).mp active absent
  · rw [Ledger.find_ensure_of_ne same, before, known_concat_of_ne same]

theorem Remembers.ledgerStep :
    Remembers config (history ++ [frame])
      (ledgerStep config rules frame ledger).2 := by
  intro later laterPast source
  rw [Ledger.find_expire, remembers.find_ledgerStep rules past room]
  exact known_later (laterPast frame (by simp))

end

theorem remembers_run
    (ordered : history.Pairwise fun earlier later => earlier.now ≤ later.now)
    (room : NeverFull config history) :
    Remembers config history
      (Transcript.run (ledgerStep config rules) history .empty).2 := by
  induction history using List.reverseRecOn with
  | nil =>
      intro later _ source
      rw [Ledger.find_expire]
      rfl
  | append_singleton history frame ih =>
      obtain ⟨before, _, past⟩ := List.pairwise_append.mp ordered
      have remembers := ih before fun earlier other after split =>
        room earlier other (after ++ [frame]) (by rw [split]; simp)
      rw [Transcript.run_append]
      exact remembers.ledgerStep rules (fun earlier member => past earlier member frame (by simp))
        (room history frame [] rfl)

end Ledgers

end Vigbridge
end Vigor
