import Vigor.Library.Transcript
import Mathlib.Tactic.Linarith
import Mathlib.Tactic.Ring

/-!
# Token buckets

A token bucket limits the amount that passes: an offer passes if the bucket
holds more tokens than its size, and takes as many tokens away.  Tokens are
added in whole numbers when an offer comes.  After a long gap the bucket is
filled up, and after another long gap it is forgotten, so that the next offer
finds a new, full one.

The last bucket of a source is kept here even when it is forgotten: whether it
still counts depends on the time of the next offer only.
-/

namespace TokenBucket

/-- The parameters of a bucket. -/
structure Limits where
  /-- Tokens added in a time of length `unit`. -/
  rate : ℕ
  /-- The largest number of tokens. -/
  burst : ℕ
  unit : ℕ
  /-- Numbers of tokens are taken modulo this number. -/
  wrap : ℕ
  /-- The gap after which the bucket is filled up. -/
  fullAfter : ℕ
  /-- The longest gap after which the bucket is remembered. -/
  lifetime : ℤ
  deriving DecidableEq, Repr

/-- A bucket at the time of its last offer. -/
structure Bucket where
  level : ℕ
  time : ℤ
  deriving DecidableEq, Repr

/-- Something that is to pass.  A new bucket can be made only if there is
room. -/
structure Offer where
  size : ℕ
  now : ℤ
  room : Bool
  deriving DecidableEq, Repr

/-- The level after a gap. -/
def refilled
    (limits : Limits)
    (level gap : ℕ) : ℕ :=
  if gap < limits.fullAfter then
    min limits.burst
      ((level + gap * limits.rate % limits.wrap / limits.unit) % limits.wrap)
  else limits.burst

/-- The bucket that is remembered at the given time. -/
def remembered
    (limits : Limits)
    (now : ℤ)
    (bucket : Option Bucket) :
    Option Bucket :=
  bucket.filter fun bucket => now - bucket.time ≤ limits.lifetime

/-- The level that an offer finds in a bucket. -/
def levelAt
    (limits : Limits)
    (now : ℤ)
    (bucket : Bucket) : ℕ :=
  refilled limits bucket.level (now - bucket.time).toNat

/-- Whether an offer passes, and the bucket after it. -/
def accept
    (limits : Limits)
    (offer : Offer)
    (bucket : Option Bucket) :
    Bool × Option Bucket :=
  match remembered limits offer.now bucket with
  | some found =>
      let level := levelAt limits offer.now found
      if offer.size < level then (true, some ⟨level - offer.size, offer.now⟩)
      else (false, some ⟨level, offer.now⟩)
  | none =>
      if offer.size ≤ limits.burst ∧ offer.room = true then
        (true, some ⟨limits.burst - offer.size, offer.now⟩)
      else (false, bucket)

/-- The amount that passes in an interval of time. -/
def passed
    (limits : Limits)
    (start stop : ℤ) :
    List Offer → Option Bucket → ℕ
  | [], _ => 0
  | offer :: offers, bucket =>
      (if (accept limits offer bucket).1 = true ∧ start ≤ offer.now ∧
          offer.now ≤ stop then offer.size else 0) +
        passed limits start stop offers (accept limits offer bucket).2

theorem refilled_le_burst
    (limits : Limits)
    (level gap : ℕ) :
    refilled limits level gap ≤ limits.burst := by
  unfold refilled
  split_ifs
  · exact Nat.min_le_left _ _
  · exact Nat.le_refl _

theorem remembered_eq_some_iff :
    remembered limits now bucket = some found ↔
      bucket = some found ∧ now - found.time ≤ limits.lifetime := by
  rw [remembered, Option.filter_eq_some_iff, decide_eq_true_iff]

theorem remembered_eq_none_iff :
    remembered limits now bucket = none ↔ ∀ found ∈ bucket,
      limits.lifetime < now - found.time := by
  rw [remembered, Option.filter_eq_none_iff]
  simp only [Option.mem_def, decide_eq_true_eq, not_le]

/-- What an offer can do: it is refused without a bucket, it makes a new bucket,
or it finds one. -/
theorem accept_cases
    (limits : Limits)
    (offer : Offer)
    (bucket : Option Bucket) :
    (remembered limits offer.now bucket = none ∧
        accept limits offer bucket = (false, bucket)) ∨
      (remembered limits offer.now bucket = none ∧
        offer.size ≤ limits.burst ∧ offer.room = true ∧
        accept limits offer bucket =
          (true, some ⟨limits.burst - offer.size, offer.now⟩)) ∨
      ∃ found, bucket = some found ∧
        offer.now - found.time ≤ limits.lifetime ∧
        ((offer.size < levelAt limits offer.now found ∧
            accept limits offer bucket = (true,
              some ⟨levelAt limits offer.now found - offer.size, offer.now⟩)) ∨
          (levelAt limits offer.now found ≤ offer.size ∧
            accept limits offer bucket = (false,
              some ⟨levelAt limits offer.now found, offer.now⟩))) := by
  rw [accept]
  cases search : remembered limits offer.now bucket with
  | none =>
      by_cases fits : offer.size ≤ limits.burst ∧ offer.room = true
      · exact .inr (.inl ⟨rfl, fits.1, fits.2, if_pos fits⟩)
      · exact .inl ⟨rfl, if_neg fits⟩
  | some found =>
      obtain ⟨isBucket, young⟩ := remembered_eq_some_iff.mp search
      refine .inr (.inr ⟨found, isBucket, young, ?_⟩)
      by_cases passes : offer.size < levelAt limits offer.now found
      · exact .inl ⟨passes, if_pos passes⟩
      · exact .inr ⟨Nat.le_of_not_lt passes, if_neg passes⟩

theorem accept_room
    (roomy : remembered limits now bucket = none → room = true) :
    accept limits ⟨size, now, room⟩ bucket =
      accept limits ⟨size, now, true⟩ bucket := by
  unfold accept
  cases search : remembered limits now bucket with
  | none => rw [roomy search]
  | some found => rfl

/-! ## The bound on what passes -/

/-- The gaps are long enough for the tokens that they make up for.  Only an
offer that makes a new bucket can take all tokens; any other leaves one
behind. -/
structure Limits.Safe (limits : Limits) (maxSize : ℕ) : Prop where
  full : (limits.burst - 1) * limits.unit ≤ limits.rate * limits.fullAfter
  forgotten : ((limits.burst - 1 : ℕ) : ℤ) * limits.unit ≤
    limits.rate * (limits.lifetime + 1)
  forgottenAtOnce : limits.burst ≤ maxSize →
    (limits.burst : ℤ) * limits.unit ≤ limits.rate * (limits.lifetime + 1)

/-- What was sent since the start is covered by the burst and the tokens made
since then, with one token in reserve. -/
structure Covered
    (limits : Limits)
    (start : ℤ)
    (sent : ℕ)
    (bucket : Option Bucket) : Prop where
  idle : (∀ found ∈ bucket, found.time < start) → sent = 0
  bounded : ∀ found ∈ bucket, found.level ≤ limits.burst
  paid : ∀ found ∈ bucket, start ≤ found.time →
    ((sent : ℤ) + max found.level 1) * limits.unit ≤
      (limits.burst + 1) * limits.unit + limits.rate * (found.time - start)

namespace Covered

variable {limits : Limits} {start : ℤ} {sent : ℕ} {bucket : Option Bucket}

theorem initial
    (limits : Limits)
    (start : ℤ) :
    Covered limits start 0 none where
  idle _ := rfl
  bounded _ member := absurd member (Option.not_mem_none _)
  paid _ member := absurd member (Option.not_mem_none _)

/-- What was sent is within the bound at any time after the last offer. -/
theorem sent_le
    (covered : Covered limits start sent bucket)
    (le : start ≤ stop)
    (notAfter : ∀ found ∈ bucket, found.time ≤ stop) :
    (sent : ℤ) * limits.unit ≤
      limits.burst * limits.unit + limits.rate * (stop - start) := by
  have tokens : (0 : ℤ) ≤ limits.rate * (stop - start) :=
    mul_nonneg (Int.natCast_nonneg _) (by omega)
  have full : (0 : ℤ) ≤ (limits.burst : ℤ) * limits.unit := by positivity
  by_cases active : ∃ found ∈ bucket, start ≤ found.time
  · obtain ⟨found, member, since⟩ := active
    have paid := covered.paid found member since
    have reserve : (limits.unit : ℤ) ≤ (max found.level 1 : ℕ) * limits.unit := by
      exact_mod_cast Nat.le_mul_of_pos_left _ (by omega)
    have later : (limits.rate : ℤ) * (found.time - start) ≤
        limits.rate * (stop - start) :=
      mul_le_mul_of_nonneg_left (by have := notAfter found member; omega) (Int.natCast_nonneg _)
    push_cast at reserve paid
    linarith
  · push Not at active
    rw [covered.idle active]
    push_cast
    linarith

theorem of_used
    (before : now < start → sent = 0)
    (bounded : level ≤ limits.burst)
    (paid : start ≤ now → ((sent : ℤ) + max level 1) * limits.unit ≤
      (limits.burst + 1) * limits.unit + limits.rate * (now - start)) :
    Covered limits start sent (some ⟨level, now⟩) where
  idle old := before (old _ rfl)
  bounded found member := by
    obtain rfl := Option.mem_some_iff.mp member
    exact bounded
  paid found member since := by
    obtain rfl := Option.mem_some_iff.mp member
    exact paid since

end Covered

theorem tokens_split
    (limits : Limits)
    (start middle now : ℤ) :
    (limits.rate : ℤ) * (now - start) =
      limits.rate * (now - middle) + limits.rate * (middle - start) := by
  ring

theorem max_refilled_mul_le
    (safe : limits.Safe maxSize)
    (level gap : ℕ) :
    max (refilled limits level gap) 1 * limits.unit ≤
      max level 1 * limits.unit + limits.rate * gap := by
  unfold refilled
  split_ifs with short
  · have added := Nat.div_mul_le_self (gap * limits.rate % limits.wrap) limits.unit
    have less := Nat.mod_le (gap * limits.rate) limits.wrap
    generalize gap * limits.rate % limits.wrap / limits.unit = tokens at *
    have wrapped := Nat.mod_le (level + tokens) limits.wrap
    have most : max (min limits.burst ((level + tokens) % limits.wrap)) 1 ≤
        max level 1 + tokens := by omega
    calc
      _ ≤ (max level 1 + tokens) * limits.unit := Nat.mul_le_mul_right _ most
      _ ≤ _ := by rw [Nat.add_mul, Nat.mul_comm limits.rate]; omega
  · have most : max limits.burst 1 ≤ max level 1 + (limits.burst - 1) := by omega
    have long := Nat.mul_le_mul_left limits.rate (Nat.le_of_not_lt short)
    have full := safe.full
    calc
      _ ≤ (max level 1 + (limits.burst - 1)) * limits.unit :=
        Nat.mul_le_mul_right _ most
      _ ≤ _ := by rw [Nat.add_mul]; omega

namespace Covered

variable {limits : Limits} {start : ℤ} {sent : ℕ} {bucket : Option Bucket}

section

variable (covered : Covered limits start sent bucket)

include covered

theorem sent_eq_zero_or_paid :
    sent = 0 ∨ ∃ found ∈ bucket, start ≤ found.time := by
  by_cases active : ∃ found ∈ bucket, start ≤ found.time
  · exact .inr active
  · push Not at active
    exact .inl (covered.idle active)

theorem sent_eq_zero
    (notAfter : ∀ found ∈ bucket, found.time ≤ now)
    (before : now < start) :
    sent = 0 :=
  covered.idle fun found member => (notAfter found member).trans_lt before

theorem sent_mul_le
    (member : found ∈ bucket)
    (since : start ≤ found.time) :
    (sent : ℤ) * limits.unit ≤
      limits.burst * limits.unit + limits.rate * (found.time - start) :=
  covered.sent_le since fun other otherMember => by
    rw [Option.mem_unique otherMember member]

theorem create
    (safe : limits.Safe maxSize)
    (small : size ≤ maxSize)
    (fits : size ≤ limits.burst)
    (since : start ≤ now)
    (forgotten : ∀ found ∈ bucket, limits.lifetime < now - found.time) :
    (((sent + size : ℕ) : ℤ) + max (limits.burst - size : ℕ) 1) * limits.unit ≤
      (limits.burst + 1) * limits.unit + limits.rate * (now - start) := by
  rcases covered.sent_eq_zero_or_paid with rfl | ⟨found, member, active⟩
  · have total : (size + max (limits.burst - size) 1) * limits.unit ≤
        (limits.burst + 1) * limits.unit :=
      Nat.mul_le_mul_right _ (by omega)
    have tokens : (0 : ℤ) ≤ limits.rate * (now - start) :=
      mul_nonneg (Int.natCast_nonneg _) (by omega)
    zify at total
    push_cast
    linarith
  · have earlier := covered.sent_mul_le member active
    have cost : ((size + max (limits.burst - size) 1 : ℕ) : ℤ) * limits.unit ≤
        limits.unit + limits.rate * (limits.lifetime + 1) := by
      by_cases whole : size = limits.burst
      · subst whole
        have atOnce := safe.forgottenAtOnce small
        rw [Nat.sub_self, Nat.zero_max, Nat.cast_add, add_mul, Nat.cast_one, one_mul]
        linarith
      · have rest : size + max (limits.burst - size) 1 = limits.burst - 1 + 1 := by
          omega
        have forgotten := safe.forgotten
        rw [rest, Nat.cast_add, add_mul, Nat.cast_one, one_mul]
        linarith
    have gap : (limits.rate : ℤ) * (limits.lifetime + 1) ≤
        limits.rate * (now - found.time) :=
      mul_le_mul_of_nonneg_left (by have := forgotten found member; omega) (Int.natCast_nonneg _)
    have split := tokens_split limits start found.time now
    push_cast at cost ⊢
    linarith

end

theorem refill
    (safe : limits.Safe maxSize)
    (covered : Covered limits start sent (some found))
    (notAfter : found.time ≤ now)
    (since : start ≤ now) :
    ((sent : ℤ) + max (levelAt limits now found) 1) * limits.unit ≤
      (limits.burst + 1) * limits.unit + limits.rate * (now - start) := by
  by_cases active : start ≤ found.time
  · have paid := covered.paid found rfl active
    have gained := max_refilled_mul_le safe found.level (now - found.time).toNat
    have gap : ((now - found.time).toNat : ℤ) = now - found.time := Int.toNat_of_nonneg (by omega)
    have split := tokens_split limits start found.time now
    zify at gained
    rw [gap] at gained
    rw [levelAt]
    push_cast at paid ⊢
    linarith
  · have unused : sent = 0 := covered.idle fun other member => by
      obtain rfl := Option.mem_some_iff.mp member
      omega
    have most := refilled_le_burst limits found.level (now - found.time).toNat
    have total : max (levelAt limits now found) 1 * limits.unit ≤
        (limits.burst + 1) * limits.unit :=
      Nat.mul_le_mul_right _ (by rw [levelAt]; omega)
    have tokens : (0 : ℤ) ≤ limits.rate * (now - start) :=
      mul_nonneg (Int.natCast_nonneg _) (by omega)
    subst unused
    zify at total
    push_cast at total ⊢
    linarith

/-- What an offer adds to the amount sent since the start. -/
def added
    (limits : Limits)
    (start : ℤ)
    (offer : Offer)
    (bucket : Option Bucket) : ℕ :=
  if (accept limits offer bucket).1 = true ∧ start ≤ offer.now then offer.size
  else 0

theorem accept
    (safe : limits.Safe maxSize)
    (covered : Covered limits start sent bucket)
    (small : offer.size ≤ maxSize)
    (notAfter : ∀ found ∈ bucket, found.time ≤ offer.now) :
    Covered limits start (sent + added limits start offer bucket)
      (accept limits offer bucket).2 := by
  have early : offer.now < start →
      sent + added limits start offer bucket = 0 := by
    intro before
    rw [covered.sent_eq_zero notAfter before, added, if_neg fun both => absurd both.2 (by omega)]
  rcases accept_cases limits offer bucket with
    ⟨_, outcome⟩ | ⟨missing, fits, _, outcome⟩ | ⟨found, rfl, _, decision⟩
  · rw [added, outcome]
    simpa using covered
  · have forgotten := remembered_eq_none_iff.mp missing
    rw [added, outcome] at early ⊢
    refine of_used early (Nat.sub_le _ _) fun since => ?_
    rw [if_pos ⟨rfl, since⟩]
    exact covered.create safe small fits since forgotten
  · have refilled := fun since =>
      covered.refill safe (notAfter found rfl) since
    have most : levelAt limits offer.now found ≤ limits.burst := refilled_le_burst _ _ _
    rcases decision with ⟨passes, outcome⟩ | ⟨fails, outcome⟩
    · rw [added, outcome] at early ⊢
      refine of_used early (by omega) fun since => ?_
      rw [if_pos ⟨rfl, since⟩]
      -- The tokens that are left and the size make up the level before.
      have parts : offer.size + max (levelAt limits offer.now found - offer.size) 1 =
          max (levelAt limits offer.now found) 1 := by omega
      refine le_trans (le_of_eq ?_) (refilled since)
      rw [← parts]
      push_cast
      ring
    · rw [added, outcome] at early ⊢
      refine of_used early most fun since => ?_
      simpa using refilled since

end Covered

variable {limits : Limits}

theorem passed_eq_zero
    (late : ∀ offer ∈ offers, stop < offer.now)
    (bucket : Option Bucket) :
    passed limits start stop offers bucket = 0 := by
  induction offers generalizing bucket with
  | nil => rfl
  | cons offer offers ih =>
      have first := late offer List.mem_cons_self
      rw [passed, if_neg (by omega), Nat.zero_add]
      exact ih (fun other member => late other (List.mem_cons_of_mem _ member)) _

variable {bucket : Option Bucket}

theorem time_le_of_mem_accept
    (notAfter : ∀ found ∈ bucket, found.time ≤ offer.now) :
    ∀ found ∈ (accept limits offer bucket).2, found.time ≤ offer.now := by
  intro found member
  rcases accept_cases limits offer bucket with
    ⟨_, outcome⟩ | ⟨_, _, _, outcome⟩ | ⟨_, _, _, ⟨_, outcome⟩ | ⟨_, outcome⟩⟩
  · rw [outcome] at member
    exact notAfter found member
  all_goals
    rw [outcome] at member
    obtain rfl := Option.mem_some_iff.mp member
    exact Int.le_refl _

theorem passed_le
    (safe : limits.Safe maxSize)
    (le : start ≤ stop)
    (small : ∀ offer ∈ offers, offer.size ≤ maxSize)
    (ordered : offers.Pairwise fun earlier later => earlier.now ≤ later.now)
    (covered : Covered limits start sent bucket)
    (notAfter : ∀ found ∈ bucket, found.time ≤ stop ∧ ∀ offer ∈ offers,
      found.time ≤ offer.now) :
    ((sent + passed limits start stop offers bucket : ℕ) : ℤ) * limits.unit ≤
      limits.burst * limits.unit + limits.rate * (stop - start) := by
  induction offers generalizing sent bucket with
  | nil => exact covered.sent_le le fun found member => (notAfter found member).1
  | cons offer offers ih =>
      obtain ⟨first, rest⟩ := List.pairwise_cons.mp ordered
      by_cases late : stop < offer.now
      · have nothing : passed limits start stop (offer :: offers) bucket = 0 := by
          refine passed_eq_zero (fun other member => ?_) bucket
          rcases List.mem_cons.mp member with rfl | member
          · exact late
          · exact late.trans_le (first other member)
        rw [nothing]
        exact covered.sent_le le fun found member => (notAfter found member).1
      · have before : ∀ found ∈ bucket, found.time ≤ offer.now :=
          fun found member => (notAfter found member).2 offer List.mem_cons_self
        have kept := covered.accept safe (small offer List.mem_cons_self) before
        have same : sent + passed limits start stop (offer :: offers) bucket =
            sent + Covered.added limits start offer bucket +
              passed limits start stop offers (accept limits offer bucket).2 := by
          have inside : offer.now ≤ stop := by omega
          simp only [passed, Covered.added, inside, and_true, Nat.add_assoc]
        rw [same]
        refine ih
          (fun other member => small other (List.mem_cons_of_mem _ member)) rest
          kept fun found member => ?_
        have time := time_le_of_mem_accept before found member
        exact ⟨by omega, fun other otherMember =>
          time.trans (first other otherMember)⟩

/-! ## The bound is tight -/

/-- The next offer finds a full bucket or none. -/
def Fresh
    (limits : Limits)
    (now : ℤ)
    (bucket : Option Bucket) : Prop :=
  ∀ found, remembered limits now bucket = some found →
    levelAt limits now found = limits.burst

theorem accept_of_fresh
    (fresh : Fresh limits now bucket)
    (fits : size < limits.burst) :
    accept limits ⟨size, now, true⟩ bucket =
      (true, some ⟨limits.burst - size, now⟩) := by
  rw [accept]
  cases search : remembered limits now bucket with
  | none => exact if_pos ⟨fits.le, rfl⟩
  | some found =>
      dsimp only
      rw [fresh found search, if_pos fits]

/-- A bucket that was just used is found as it was left, or full. -/
theorem le_levelAt_used
    (noWrap : limits.burst < limits.wrap)
    (bounded : level ≤ limits.burst)
    (now : ℤ) :
    level ≤ levelAt limits now ⟨level, now⟩ := by
  have same : level % limits.wrap = level := Nat.mod_eq_of_lt (by omega)
  rw [levelAt, refilled, Int.sub_self]
  split_ifs
  · simp [same, bounded]
  · exact bounded

theorem remembered_used
    (lasting : 0 ≤ limits.lifetime)
    (level : ℕ)
    (now : ℤ) :
    remembered limits now (some ⟨level, now⟩) = some ⟨level, now⟩ :=
  remembered_eq_some_iff.mpr ⟨rfl, by simpa using lasting⟩

theorem passed_replicate
    (noWrap : limits.burst < limits.wrap)
    (lasting : 0 ≤ limits.lifetime)
    (since : start ≤ now)
    (until_ : now ≤ stop)
    (rest : List Offer)
    (enough : count < level)
    (bounded : level ≤ limits.burst) :
    ∃ left, passed limits start stop
        (List.replicate count ⟨1, now, true⟩ ++ rest) (some ⟨level, now⟩) =
      count + passed limits start stop rest (some ⟨left, now⟩) := by
  induction count generalizing level with
  | zero => exact ⟨level, (Nat.zero_add _).symm⟩
  | succ count ih =>
      have atLeast := le_levelAt_used noWrap bounded now
      have atMost : levelAt limits now ⟨level, now⟩ ≤ limits.burst := refilled_le_burst _ _ _
      have found := remembered_used lasting level now
      have passes : accept limits ⟨1, now, true⟩ (some ⟨level, now⟩) =
          (true, some ⟨levelAt limits now ⟨level, now⟩ - 1, now⟩) := by
        rw [accept]
        simp only [found]
        exact if_pos (by omega)
      have stillEnough : count < levelAt limits now ⟨level, now⟩ - 1 := by omega
      obtain ⟨left, others⟩ := ih stillEnough (by omega)
      refine ⟨left, ?_⟩
      rw [List.replicate_succ, List.cons_append, passed, passes, if_pos ⟨rfl, since, until_⟩]
      dsimp only
      rw [others]
      omega

theorem passed_of_fresh
    (noWrap : limits.burst < limits.wrap)
    (lasting : 0 ≤ limits.lifetime)
    (large : 2 ≤ limits.burst)
    (since : start ≤ now)
    (until_ : now ≤ stop)
    (fresh : Fresh limits now bucket)
    (rest : List Offer) :
    ∃ left, passed limits start stop
        (List.replicate (limits.burst - 1) ⟨1, now, true⟩ ++ rest) bucket =
      limits.burst - 1 + passed limits start stop rest (some ⟨left, now⟩) := by
  obtain ⟨left, others⟩ := passed_replicate noWrap lasting since until_ rest
    (show limits.burst - 2 < limits.burst - 1 by omega) (Nat.sub_le _ _)
  have count : limits.burst - 1 = limits.burst - 2 + 1 := by omega
  refine ⟨left, ?_⟩
  conv_lhs => rw [count, List.replicate_succ, List.cons_append, passed,
    accept_of_fresh fresh (by omega), if_pos ⟨rfl, since, until_⟩]
  dsimp only
  rw [others]
  omega

/-- Offers at regular intervals, several at a time. -/
def cycles (count gap : ℕ) : ℕ → ℤ → List Offer
  | 0, _ => []
  | rounds + 1, now =>
      List.replicate count ⟨1, now, true⟩ ++
        cycles count gap rounds (now + gap)

theorem mem_cycles (member : offer ∈ cycles count gap rounds now) :
    offer.size = 1 ∧ offer.room = true ∧ now ≤ offer.now := by
  induction rounds generalizing now with
  | zero => cases member
  | succ rounds ih =>
      rcases List.mem_append.mp member with here | later
      · rw [List.eq_of_mem_replicate here]
        exact ⟨rfl, rfl, Int.le_refl _⟩
      · obtain ⟨size, room, time⟩ := ih later
        exact ⟨size, room, by omega⟩

theorem pairwise_cycles
    (count gap rounds : ℕ)
    (now : ℤ) :
    (cycles count gap rounds now).Pairwise fun earlier later =>
      earlier.now ≤ later.now := by
  induction rounds generalizing now with
  | zero => exact List.Pairwise.nil
  | succ rounds ih =>
      refine List.pairwise_append.mpr ⟨?_, ih _, ?_⟩
      · exact List.pairwise_replicate.mpr (.inr (Int.le_refl _))
      · intro first firstMember second secondMember
        rw [List.eq_of_mem_replicate firstMember]
        have := (mem_cycles secondMember).2.2
        dsimp only
        omega

/-- After gaps that leave the bucket fresh, all but one token pass every
time. -/
theorem le_passed_cycles
    (noWrap : limits.burst < limits.wrap)
    (lasting : 0 ≤ limits.lifetime)
    {gap rounds : ℕ}
    (large : 2 ≤ limits.burst)
    (refreshes : ∀ level now, Fresh limits (now + gap) (some ⟨level, now⟩))
    (fresh : Fresh limits now bucket)
    (since : start ≤ now)
    (until_ : now + rounds * gap ≤ stop) :
    (rounds + 1) * (limits.burst - 1) ≤
      passed limits start stop (cycles (limits.burst - 1) gap (rounds + 1) now)
        bucket := by
  induction rounds generalizing now bucket with
  | zero =>
      obtain ⟨left, all⟩ := passed_of_fresh noWrap lasting large since
        (by simpa using until_) fresh (cycles (limits.burst - 1) gap 0 (now + gap))
      rw [cycles, all]
      omega
  | succ rounds ih =>
      push_cast at until_
      have span : (0 : ℤ) ≤ rounds * gap := by positivity
      obtain ⟨left, all⟩ := passed_of_fresh noWrap lasting large since
        (by linarith) fresh (cycles (limits.burst - 1) gap (rounds + 1) (now + gap))
      have later := ih (refreshes left now) (by omega) (by linarith)
      rw [cycles, all, Nat.succ_mul (rounds + 1)]
      omega

/-- Some offers of limited size, in order of time and with room, pass more than
the bound in an interval from zero. -/
def Limits.Exceeded
    (limits : Limits)
    (maxSize : ℕ) : Prop :=
  ∃ (offers : List Offer) (stop : ℤ),
    (offers.Pairwise fun earlier later => earlier.now ≤ later.now) ∧
    (∀ offer ∈ offers, offer.size ≤ maxSize ∧ offer.room = true) ∧
    0 ≤ stop ∧
    (limits.burst : ℤ) * limits.unit + limits.rate * (stop - 0) <
      (passed limits 0 stop offers none : ℤ) * limits.unit

/-- The gap after which the bucket is fresh is too short. -/
theorem exceeded_of_refreshes
    (noWrap : limits.burst < limits.wrap)
    (lasting : 0 ≤ limits.lifetime)
    {maxSize gap : ℕ}
    (someSize : 1 ≤ maxSize)
    (short : limits.rate * gap < (limits.burst - 1) * limits.unit)
    (refreshes : ∀ level now, Fresh limits (now + gap) (some ⟨level, now⟩)) :
    limits.Exceeded maxSize := by
  have large : 2 ≤ limits.burst := by
    by_contra small
    have : limits.burst - 1 = 0 := by omega
    simp [this] at short
  have span : (0 : ℤ) ≤ ((limits.unit + 1 : ℕ) : ℤ) * gap := by positivity
  have fresh : Fresh limits 0 none := fun _ found => by simp [remembered] at found
  have all := le_passed_cycles noWrap lasting large refreshes fresh (Int.le_refl 0)
    (Int.zero_add (((limits.unit + 1 : ℕ) : ℤ) * gap)).le
  refine ⟨cycles (limits.burst - 1) gap (limits.unit + 1 + 1) 0, _,
    pairwise_cycles _ _ _ _, fun offer member => ?_, span, ?_⟩
  · obtain ⟨size, room, _⟩ := mem_cycles member
    exact ⟨by omega, room⟩
  · generalize passed limits 0 _ _ none = sum at *
    obtain ⟨rest, isBurst⟩ := Nat.exists_eq_add_of_le' (show 1 ≤ limits.burst by omega)
    rw [isBurst, Nat.add_sub_cancel] at short all
    have total : (limits.unit + 1 + 1) * rest * limits.unit ≤ sum * limits.unit :=
      Nat.mul_le_mul_right _ all
    have each : (limits.unit + 1) * (limits.rate * gap + 1) ≤
        (limits.unit + 1) * (rest * limits.unit) := Nat.mul_le_mul_left _ short
    rw [isBurst]
    zify at total each
    push_cast
    linarith

theorem exceeded_of_atOnce
    (lasting : 0 ≤ limits.lifetime)
    (fits : limits.burst ≤ maxSize)
    (short : (limits.rate : ℤ) * (limits.lifetime + 1) <
      limits.burst * limits.unit) :
    limits.Exceeded maxSize := by
  have create : ∀ now bucket, remembered limits now bucket = none →
      accept limits ⟨limits.burst, now, true⟩ bucket = (true, some ⟨0, now⟩) := by
    intro now bucket missing
    simp [accept, missing]
  have gone : remembered limits (limits.lifetime + 1) (some ⟨0, 0⟩) = none := by
    refine remembered_eq_none_iff.mpr fun found member => ?_
    obtain rfl := Option.mem_some_iff.mp member
    dsimp only
    omega
  have nonnegative : (0 : ℤ) ≤ limits.lifetime + 1 := by omega
  refine ⟨[⟨limits.burst, 0, true⟩, ⟨limits.burst, limits.lifetime + 1, true⟩],
    limits.lifetime + 1, by simpa using nonnegative, by simp [fits], nonnegative,
    ?_⟩
  have both : passed limits 0 (limits.lifetime + 1)
      [⟨limits.burst, 0, true⟩, ⟨limits.burst, limits.lifetime + 1, true⟩] none =
        limits.burst + limits.burst := by
    simp [passed, create _ _ gone, create 0 none rfl, nonnegative]
  rw [both]
  push_cast
  linarith

theorem exceeded_of_not_safe
    (noWrap : limits.burst < limits.wrap)
    (lasting : 0 ≤ limits.lifetime)
    (someSize : 1 ≤ maxSize)
    (notSafe : ¬limits.Safe maxSize) :
    limits.Exceeded maxSize := by
  by_cases full : (limits.burst - 1) * limits.unit ≤ limits.rate * limits.fullAfter
  swap
  · refine exceeded_of_refreshes noWrap lasting someSize (Nat.lt_of_not_le full) ?_
    intro level now found isFound
    obtain ⟨same, _⟩ := remembered_eq_some_iff.mp isFound
    obtain rfl := Option.some.inj same
    simp [levelAt, refilled]
  by_cases forgotten : ((limits.burst - 1 : ℕ) : ℤ) * limits.unit ≤
      limits.rate * (limits.lifetime + 1)
  swap
  · obtain ⟨lifetime, isLifetime⟩ := Int.eq_ofNat_of_zero_le lasting
    rw [isLifetime] at forgotten
    have short : limits.rate * (lifetime + 1) <
        (limits.burst - 1) * limits.unit := by
      exact_mod_cast lt_of_not_ge forgotten
    refine exceeded_of_refreshes noWrap lasting someSize short ?_
    intro level now found isFound
    obtain ⟨same, young⟩ := remembered_eq_some_iff.mp isFound
    obtain rfl := Option.some.inj same
    push_cast at young
    omega
  by_contra enough
  refine notSafe ⟨full, forgotten, fun fits => ?_⟩
  by_contra short
  exact enough (exceeded_of_atOnce lasting fits (lt_of_not_ge short))

end TokenBucket
