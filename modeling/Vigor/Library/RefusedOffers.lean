import Vigor.Library.TokenBucket

/-!
# Refused offers

An offer that a token bucket refuses takes no tokens, but it is not without
effect: the tokens made so far are rounded down, and the time after which the
bucket is forgotten starts again.  Later offers cannot tell exactly when, for
every gap, the two roundings agree with the single one and no bucket that would
have been forgotten is still remembered with a difference.
-/

namespace TokenBucket

/-- Whether each of the offers passes. -/
def decisions
    (limits : Limits)
    (offers : List Offer)
    (bucket : Option Bucket) :
    List Bool :=
  (Transcript.run (accept limits) offers bucket).1

theorem decisions_cons
    (limits : Limits)
    (offer : Offer)
    (offers : List Offer)
    (bucket : Option Bucket) :
    decisions limits (offer :: offers) bucket =
      (accept limits offer bucket).1 ::
        decisions limits offers (accept limits offer bucket).2 := rfl

/-- Offers in order of time, from the given time on and before the end, with
room and of limited size. -/
structure After
    (maxSize : ℕ)
    (now horizon : ℤ)
    (offers : List Offer) : Prop where
  ordered : offers.Pairwise fun earlier later => earlier.now ≤ later.now
  notBefore : ∀ offer ∈ offers, now ≤ offer.now
  inTime : ∀ offer ∈ offers, offer.now < horizon
  small : ∀ offer ∈ offers, offer.size ≤ maxSize
  roomy : ∀ offer ∈ offers, offer.room = true

theorem After.tail (after : After maxSize now horizon (offer :: offers)) :
    After maxSize offer.now horizon offers where
  ordered := (List.pairwise_cons.mp after.ordered).2
  notBefore := (List.pairwise_cons.mp after.ordered).1
  inTime other member := after.inTime other (List.mem_cons_of_mem _ member)
  small other member := after.small other (List.mem_cons_of_mem _ member)
  roomy other member := after.roomy other (List.mem_cons_of_mem _ member)

variable {bucket : Option Bucket}

theorem accept_of_remembered
    (isFound : remembered limits offer.now bucket = some found) :
    accept limits offer bucket =
      if offer.size < levelAt limits offer.now found then
        (true, some ⟨levelAt limits offer.now found - offer.size, offer.now⟩)
      else (false, some ⟨levelAt limits offer.now found, offer.now⟩) := by
  rw [accept, isFound]

theorem accept_of_forgotten
    (isNone : remembered limits offer.now bucket = none) :
    accept limits offer bucket =
      if offer.size ≤ limits.burst ∧ offer.room = true then
        (true, some ⟨limits.burst - offer.size, offer.now⟩)
      else (false, bucket) := by
  rw [accept, isNone]

/-! ## Buckets that no offer can tell apart -/

/-- The buckets are the same, or both are forgotten. -/
def Alike
    (limits : Limits)
    (now : ℤ)
    (first second : Option Bucket) : Prop :=
  first = second ∨
    (remembered limits now first = none ∧ remembered limits now second = none)

theorem remembered_eq_none_of_le
    (isNone : remembered limits now bucket = none)
    (le : now ≤ later) :
    remembered limits later bucket = none := by
  rw [remembered_eq_none_iff] at isNone ⊢
  intro found member
  have := isNone found member
  omega

namespace Alike

variable {limits : Limits} {now : ℤ} {first second : Option Bucket}

theorem mono
    (alike : Alike limits now first second)
    (le : now ≤ later) :
    Alike limits later first second :=
  alike.imp_right fun forgotten => ⟨remembered_eq_none_of_le forgotten.1 le,
    remembered_eq_none_of_le forgotten.2 le⟩

theorem accept (alike : Alike limits offer.now first second) :
    (accept limits offer first).1 = (accept limits offer second).1 ∧
      Alike limits offer.now (accept limits offer first).2
        (accept limits offer second).2 := by
  rcases alike with rfl | ⟨firstNone, secondNone⟩
  · exact ⟨rfl, .inl rfl⟩
  · rw [accept_of_forgotten firstNone, accept_of_forgotten secondNone]
    split_ifs
    · exact ⟨rfl, .inl rfl⟩
    · exact ⟨rfl, .inr ⟨firstNone, secondNone⟩⟩

theorem decisions_eq
    (alike : Alike limits now first second)
    (after : After maxSize now horizon offers) :
    decisions limits offers first = decisions limits offers second := by
  induction offers generalizing now first second with
  | nil => rfl
  | cons offer offers ih =>
      have here := alike.mono (after.notBefore offer List.mem_cons_self)
      have later := ih here.accept.2 after.tail
      rw [decisions_cons, decisions_cons, here.accept.1, later]

end Alike

/-! ## When a refused offer has no effect -/

/-- The bucket at the last refused offer, compared with the bucket before it,
after any gap that ends in time: the levels are the same, or the older bucket is
forgotten, the newer one is full and no offer can take all its tokens. -/
def Harmless
    (limits : Limits)
    (maxSize : ℕ)
    (now horizon : ℤ)
    (found : Bucket) : Prop :=
  ∀ gap : ℕ, now + gap < horizon → gap ≤ limits.lifetime →
    (now + gap - found.time ≤ limits.lifetime →
      refilled limits (levelAt limits now found) gap =
        levelAt limits (now + gap) found) ∧
    (limits.lifetime < now + gap - found.time →
      refilled limits (levelAt limits now found) gap = limits.burst ∧
        maxSize < limits.burst)

/-- The bucket after a refused offer. -/
def refused
    (limits : Limits)
    (now : ℤ)
    (found : Bucket) : Bucket :=
  ⟨levelAt limits now found, now⟩

theorem levelAt_refused
    (limits : Limits)
    (now : ℤ)
    (gap : ℕ)
    (found : Bucket) :
    levelAt limits (now + gap) (refused limits now found) =
      refilled limits (levelAt limits now found) gap := by
  rw [levelAt, refused]
  congr 1
  dsimp only
  omega

section Harmless

variable
  {limits : Limits}
  {maxSize : ℕ}
  {now horizon : ℤ}
  {found : Bucket}

theorem Harmless.accept
    (harmless : Harmless limits maxSize now horizon found)
    (notAfter : found.time ≤ now)
    (notBefore : now ≤ offer.now)
    (inTime : offer.now < horizon)
    (small : offer.size ≤ maxSize)
    (roomy : offer.room = true) :
    (accept limits offer (some (refused limits now found))).1 =
        (accept limits offer (some found)).1 ∧
      Alike limits offer.now
        (accept limits offer (some (refused limits now found))).2
        (accept limits offer (some found)).2 := by
  obtain ⟨gap, isGap⟩ := Int.eq_ofNat_of_zero_le (sub_nonneg.mpr notBefore)
  have time : offer.now = now + gap := by omega
  have forgotten_of : ∀ other : Bucket,
      (limits.lifetime : ℤ) < offer.now - other.time →
        remembered limits offer.now (some other) = none := by
    intro other old
    refine remembered_eq_none_iff.mpr fun candidate member => ?_
    obtain rfl := Option.mem_some_iff.mp member
    exact old
  by_cases long : limits.lifetime < (gap : ℤ)
  · have alike : Alike limits offer.now (some (refused limits now found))
        (some found) := by
      refine .inr ⟨forgotten_of _ ?_, forgotten_of _ (by omega)⟩
      simp only [refused]
      omega
    exact alike.accept
  have young : remembered limits offer.now (some (refused limits now found)) =
      some (refused limits now found) := by
    refine remembered_eq_some_iff.mpr ⟨rfl, ?_⟩
    simp only [refused]
    omega
  have level := levelAt_refused limits now gap found
  obtain ⟨remains, ends⟩ := harmless gap (time ▸ inTime) (not_lt.mp long)
  rw [← time] at level remains ends
  rw [accept_of_remembered young, level]
  by_cases old : (limits.lifetime : ℤ) < offer.now - found.time
  · obtain ⟨full, large⟩ := ends old
    rw [accept_of_forgotten (forgotten_of found old), full, if_pos (by omega),
      if_pos ⟨by omega, roomy⟩]
    exact ⟨rfl, .inl rfl⟩
  · have stillYoung : remembered limits offer.now (some found) = some found :=
      remembered_eq_some_iff.mpr ⟨rfl, by omega⟩
    rw [accept_of_remembered stillYoung, remains (by omega)]
    exact ⟨rfl, .inl rfl⟩

theorem Harmless.decisions_eq
    (harmless : Harmless limits maxSize now horizon found)
    (notAfter : found.time ≤ now)
    (after : After maxSize now horizon offers) :
    decisions limits offers (some (refused limits now found)) =
      decisions limits offers (some found) := by
  cases offers with
  | nil => rfl
  | cons offer offers =>
      obtain ⟨same, alike⟩ := harmless.accept notAfter
        (after.notBefore offer List.mem_cons_self)
        (after.inTime offer List.mem_cons_self)
        (after.small offer List.mem_cons_self)
        (after.roomy offer List.mem_cons_self)
      rw [decisions_cons, decisions_cons, same, alike.decisions_eq after.tail]

/-! ## When a refused offer has an effect -/

/-- An offer finds a bucket with the level. -/
def Finds
    (limits : Limits)
    (now : ℤ)
    (level : ℕ)
    (bucket : Option Bucket) :
    Prop :=
  ∃ found, remembered limits now bucket = some found ∧
    levelAt limits now found = level

/-- A bucket that was just used is found as it was left. -/
theorem finds_used
    (noWrap : limits.burst < limits.wrap)
    (lasting : 0 ≤ limits.lifetime)
    (lively : 0 < limits.fullAfter)
    (bounded : level ≤ limits.burst)
    (now : ℤ) :
    Finds limits now level (some ⟨level, now⟩) := by
  have same : level % limits.wrap = level := Nat.mod_eq_of_lt (by omega)
  refine ⟨_, remembered_used lasting level now, ?_⟩
  simp [levelAt, refilled, lively, same, bounded]

/-- Some offers at one time. -/
structure AtOnce (maxSize : ℕ) (now : ℤ) (offers : List Offer) : Prop where
  times : ∀ offer ∈ offers, offer.now = now
  small : ∀ offer ∈ offers, offer.size ≤ maxSize
  roomy : ∀ offer ∈ offers, offer.room = true

theorem AtOnce.cons
    (rest : AtOnce maxSize now offers)
    (small : size ≤ maxSize) :
    AtOnce maxSize now (⟨size, now, true⟩ :: offers) := by
  constructor
  · exact List.forall_mem_cons.mpr ⟨rfl, rest.times⟩
  · exact List.forall_mem_cons.mpr ⟨small, rest.small⟩
  · exact List.forall_mem_cons.mpr ⟨rfl, rest.roomy⟩

theorem AtOnce.nil : AtOnce maxSize now [] := by
  constructor <;> simp

/-- Buckets of different levels can be told apart: offers of the largest size
drain them until the lower one refuses an offer that the higher one accepts. -/
theorem exists_decisions_ne
    (noWrap : limits.burst < limits.wrap)
    (lasting : 0 ≤ limits.lifetime)
    (someSize : 1 ≤ maxSize)
    (lively : 0 < limits.fullAfter)
    (less : low < high)
    (bounded : high ≤ limits.burst)
    (firstLow : Finds limits now low first)
    (secondHigh : Finds limits now high second) :
    ∃ offers, AtOnce maxSize now offers ∧
      decisions limits offers first ≠ decisions limits offers second := by
  induction low using Nat.strongRecOn generalizing high first second with
  | ind low ih =>
      obtain ⟨firstFound, isFirst, firstLevel⟩ := firstLow
      obtain ⟨secondFound, isSecond, secondLevel⟩ := secondHigh
      have onFirst : ∀ size, accept limits ⟨size, now, true⟩ first =
          if size < low then (true, some ⟨low - size, now⟩)
          else (false, some ⟨low, now⟩) := by
        intro size
        rw [accept_of_remembered isFirst, firstLevel]
      have onSecond : ∀ size, accept limits ⟨size, now, true⟩ second =
          if size < high then (true, some ⟨high - size, now⟩)
          else (false, some ⟨high, now⟩) := by
        intro size
        rw [accept_of_remembered isSecond, secondLevel]
      by_cases offered : low ≤ maxSize
      · refine ⟨[⟨low, now, true⟩], AtOnce.nil.cons offered, ?_⟩
        rw [decisions_cons, decisions_cons, onFirst, onSecond,
          if_neg (Nat.lt_irrefl low), if_pos less]
        simp
      · obtain ⟨offers, atOnce, differ⟩ := ih (low - maxSize)
          (by omega) (Nat.sub_lt_sub_right (Nat.le_of_not_le offered) less)
          (by omega) (finds_used noWrap lasting lively (by omega) now)
          (finds_used noWrap lasting lively (by omega) now)
        refine ⟨_, atOnce.cons (Nat.le_refl maxSize), ?_⟩
        rw [decisions_cons, decisions_cons, onFirst, onSecond,
          if_pos (Nat.lt_of_not_le offered), if_pos (by omega)]
        exact fun same => differ (List.cons.inj same).2

theorem fullAfter_pos_of_refilled_ne
    (notFull : refilled limits level gap ≠ limits.burst) :
    0 < limits.fullAfter := by
  by_contra always
  exact notFull (if_neg (by omega))

theorem harmless_of_decisions_eq
    (noWrap : limits.burst < limits.wrap)
    (someSize : 1 ≤ maxSize)
    (same : ∀ gap : ℕ, now + gap < horizon → gap ≤ limits.lifetime →
      ∀ offers, AtOnce maxSize (now + gap) offers →
        decisions limits offers (some (refused limits now found)) =
          decisions limits offers (some found)) :
    Harmless limits maxSize now horizon found := by
  intro gap inTime short
  have sameAtOnce := same gap inTime short
  have lasting : 0 ≤ limits.lifetime := by omega
  have isRefused : remembered limits (now + gap)
      (some (refused limits now found)) = some (refused limits now found) := by
    refine remembered_eq_some_iff.mpr ⟨rfl, ?_⟩
    simp only [refused]
    omega
  have level := levelAt_refused limits now gap found
  have bounded := refilled_le_burst limits (levelAt limits now found) gap
  have fromRefused : Finds limits (now + gap)
      (refilled limits (levelAt limits now found) gap)
      (some (refused limits now found)) := ⟨_, isRefused, level⟩
  constructor
  · intro young
    have fromFound : Finds limits (now + gap) (levelAt limits (now + gap) found)
        (some found) :=
      ⟨found, remembered_eq_some_iff.mpr ⟨rfl, young⟩, rfl⟩
    have foundBounded : levelAt limits (now + gap) found ≤ limits.burst := refilled_le_burst _ _ _
    rcases lt_trichotomy (refilled limits (levelAt limits now found) gap)
      (levelAt limits (now + gap) found) with less | equal | greater
    · have lively := fullAfter_pos_of_refilled_ne (less.trans_le foundBounded).ne
      obtain ⟨offers, atOnce, differ⟩ := exists_decisions_ne noWrap lasting someSize lively less
        foundBounded fromRefused fromFound
      exact absurd (sameAtOnce offers atOnce) differ
    · exact equal
    · have lively : 0 < limits.fullAfter :=
        fullAfter_pos_of_refilled_ne (greater.trans_le bounded).ne
      obtain ⟨offers, atOnce, differ⟩ := exists_decisions_ne noWrap lasting someSize lively
        greater bounded fromFound fromRefused
      exact absurd (sameAtOnce offers atOnce).symm differ
  · intro old
    have isForgotten : remembered limits (now + gap) (some found) = none := by
      refine remembered_eq_none_iff.mpr fun other member => ?_
      obtain rfl := Option.mem_some_iff.mp member
      exact old
    generalize refilled limits (levelAt limits now found) gap = left at *
    have onRefused : ∀ size, accept limits ⟨size, now + gap, true⟩
        (some (refused limits now found)) =
          if size < left then (true, some ⟨left - size, now + gap⟩)
          else (false, some ⟨left, now + gap⟩) := by
      intro size
      rw [accept_of_remembered isRefused, level]
    have onFound : ∀ size ≤ limits.burst, accept limits ⟨size, now + gap, true⟩
        (some found) = (true, some ⟨limits.burst - size, now + gap⟩) := by
      intro size fits
      rw [accept_of_forgotten isForgotten, if_pos ⟨fits, rfl⟩]
    -- An offer of all that is left would be refused, but not by a new bucket.
    have large : maxSize < left := by
      by_contra offered
      have tell := sameAtOnce [⟨left, now + gap, true⟩] (AtOnce.nil.cons (Nat.le_of_not_lt offered))
      rw [decisions_cons, decisions_cons, onRefused, onFound left bounded,
        if_neg (Nat.lt_irrefl left)] at tell
      simp at tell
    have full : left = limits.burst := by
      by_contra notFull
      have lively : 0 < limits.fullAfter := by
        by_contra always
        refine notFull ?_
        rw [← level, levelAt, refilled, if_neg (by omega)]
      have less : left - maxSize < limits.burst - maxSize := by omega
      obtain ⟨offers, atOnce, differ⟩ := exists_decisions_ne noWrap lasting someSize lively less
        (Nat.sub_le _ _) (finds_used noWrap lasting lively (by omega) (now + gap))
        (finds_used noWrap lasting lively (Nat.sub_le _ _) (now + gap))
      have tell := sameAtOnce _ (atOnce.cons (Nat.le_refl maxSize))
      rw [decisions_cons, decisions_cons, onRefused, onFound maxSize (by omega),
        if_pos large] at tell
      exact differ (List.cons.inj tell).2
    exact ⟨full, by omega⟩

end Harmless

end TokenBucket
