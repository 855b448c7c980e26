import Vigor.Library.RefusedOffers
import Vigor.Vigpol.RateBound

/-!
# Dropped packets

A packet that the policer drops should cost nothing: without it the other
packets should be treated the same.  But a dropped packet rounds down the tokens
that its bucket has gained, and it makes the bucket expire later.  Two runs are
compared here, one with the packet and one without it.  While the table is not
full they differ in a single bucket, and they treat all later packets the same
exactly when no later refill and no expiry shows the difference.
-/

namespace Vigor
namespace Vigpol

open DoubleChain TokenBucket

/-! ## The property -/

section Property

variable (config : Config) (build : Map.Build) (ops : Map.KeyOps ℕ)

/-- In no state of the run are all indexes in use. -/
def NeverFull
    (receptions : List Reception)
    (state : State) : Prop :=
  ∀ first rest, first ++ rest = receptions → ∀ dstDevices final,
    (run config build ops first state).Returns (dstDevices, final) →
      FlowTable.allocatedCount final.table.chain config.dynCapacity <
        config.dynCapacity

/-- The next packet after the dropped one, at any time at which the bucket has
not expired, finds the same level with the dropped packet and without it.  If
without it the bucket has expired, then with it the bucket is full, and it is
larger than any packet. -/
def RefillAgrees
    (now : ℤ)
    (value : DynamicValue) : Prop :=
  ∀ later, now ≤ later → later < 2 ^ 63 →
    minTime config.burst config.rate later ≤ now →
      let level := refill config.burst config.rate later
        ⟨refill config.burst config.rate now value, now⟩
      (minTime config.burst config.rate later ≤ value.bucketTime →
        level = refill config.burst config.rate later value) ∧
      (value.bucketTime < minTime config.burst config.rate later →
        level = config.burst ∧ 2 ^ 16 - 1 < config.burst)

/-- The condition on the state before the packet: it is not checked, or it finds
no bucket, or the refills of that bucket agree. -/
def DropHarmless
    (dropped : Reception)
    (state : State) : Prop :=
  Policed config dropped.frame.dstAddr dropped → ∀ index,
    state.table.keys.get build ops (.own dropped.frame.dstAddr) = some index →
      minTime config.burst config.rate dropped.now ≤
          (state.dynVals index).bucketTime →
        RefillAgrees config dropped.now (state.dynVals index)

end Property

/-! ## Runs on buckets -/

section Buckets

variable {config : Config} {lifetime : ℤ}

/-- `nf_process` on the last buckets of all destinations, in a table that is not
full. -/
def bucketStep
    (config : Config)
    (lifetime : ℤ)
    (reception : Reception)
    (buckets : ℕ → Option Bucket) : ℕ × (ℕ → Option Bucket) :=
  (if Policed config reception.frame.dstAddr reception then
      if (accept (config.limitsFor lifetime) (offerOf reception true)
          (buckets reception.frame.dstAddr)).1 then config.lanDevice
      else config.wanDevice
    else passedTo config reception,
    nextBuckets config lifetime reception true buckets)

variable {reception : Reception}

theorem bucketStep_of_policed
    (policed : Policed config dst reception)
    (buckets : ℕ → Option Bucket) :
    (bucketStep config lifetime reception buckets).1 =
      if (accept (config.limitsFor lifetime) (offerOf reception true)
        (buckets dst)).1
      then config.lanDevice
      else config.wanDevice := by
  obtain rfl := policed.2.2.2
  exact if_pos policed

theorem Follows.bucketStep
    (steady : minTime config.burst config.rate reception.now =
      reception.now - lifetime)
    (follows : Follows lifetime reception.now ledger buckets)
    (room : config.hasRoom reception ledger = true) :
    (Vigpol.ledgerStep config reception ledger).1 =
        (Vigpol.bucketStep config lifetime reception buckets).1 ∧
      Follows lifetime reception.now
        (Vigpol.ledgerStep config reception ledger).2
        (Vigpol.bucketStep config lifetime reception buckets).2 := by
  have kept := follows.ledgerStep steady
  rw [room] at kept
  refine ⟨?_, kept⟩
  by_cases policed : Policed config reception.frame.dstAddr reception
  · have reply := (follows.ledgerStep_of_policed steady policed).1
    rw [room] at reply
    rw [reply, bucketStep_of_policed policed]
  · rw [ledgerStep_of_not_policed policed]
    exact (if_neg policed).symm

/-- Every packet of the run finds room. -/
def Roomy
    (config : Config)
    (receptions : List Reception)
    (ledger : Ledger ℕ DynamicValue) : Prop :=
  Transcript.Permitted
    (fun reception ledger => config.hasRoom reception ledger = true)
    (ledgerStep config) receptions ledger

/-- A run on the ledger with room does what the run on the buckets does. -/
theorem Follows.replies_eq
    (steady : ∀ reception ∈ receptions,
      minTime config.burst config.rate reception.now = reception.now - lifetime)
    (ordered : receptions.Pairwise fun earlier later => earlier.now ≤ later.now)
    (follows : ∀ reception ∈ receptions,
      Follows lifetime reception.now ledger buckets)
    (roomy : Roomy config receptions ledger) :
    (Transcript.run (Vigpol.ledgerStep config) receptions ledger).1 =
      (Transcript.run (Vigpol.bucketStep config lifetime) receptions
        buckets).1 :=
  (Transcript.timed_run_refines Reception.now (Follows lifetime)
    (fun le kept => kept.mono le)
    (fun _ _ _ kept allowed => kept.bucketStep allowed.1 allowed.2) ordered follows
    (roomy.imp_of_mem fun reception member _ room =>
      And.intro (steady reception member) room)).1

/-- The offers that packets make to the bucket of a destination, in a table that
is not full. -/
def offersFor
    (config : Config)
    (dst : ℕ)
    (receptions : List Reception) :
    List Offer :=
  (receptions.filter fun reception => Policed config dst reception).map
    fun reception => offerOf reception true

theorem decisions_offersFor_cons
    (dst : ℕ)
    (reception : Reception)
    (receptions : List Reception)
    (buckets : ℕ → Option Bucket) :
    decisions (config.limitsFor lifetime)
        (offersFor config dst (reception :: receptions)) (buckets dst) =
      (if Policed config dst reception then
        [(accept (config.limitsFor lifetime) (offerOf reception true)
          (buckets dst)).1]
      else []) ++
        decisions (config.limitsFor lifetime) (offersFor config dst receptions)
          (nextBuckets config lifetime reception true buckets dst) := by
  by_cases policed : Policed config dst reception
  · simp [offersFor, nextBuckets, policed, decisions_cons]
  · simp [offersFor, nextBuckets, policed]

/-- A packet goes the same way if its bucket takes the same decision. -/
theorem reply_eq_iff :
    (bucketStep config lifetime reception first).1 =
        (bucketStep config lifetime reception second).1 ↔
      ∀ dst, Policed config dst reception →
        (accept (config.limitsFor lifetime) (offerOf reception true)
            (first dst)).1 =
          (accept (config.limitsFor lifetime) (offerOf reception true)
            (second dst)).1 := by
  constructor
  · intro same dst policed
    have different := policed.different
    rw [bucketStep_of_policed policed, bucketStep_of_policed policed] at same
    revert same
    cases (accept (config.limitsFor lifetime) (offerOf reception true) (first dst)).1 <;>
      cases (accept (config.limitsFor lifetime) (offerOf reception true) (second dst)).1 <;>
        simp [different, different.symm]
  · intro same
    by_cases policed : Policed config reception.frame.dstAddr reception
    · rw [bucketStep_of_policed policed, bucketStep_of_policed policed, same _ policed]
    · exact (if_neg policed).trans (if_neg policed).symm

theorem replies_eq_iff :
    (Transcript.run (bucketStep config lifetime) receptions first).1 =
        (Transcript.run (bucketStep config lifetime) receptions second).1 ↔
      ∀ dst, decisions (config.limitsFor lifetime)
          (offersFor config dst receptions) (first dst) =
        decisions (config.limitsFor lifetime) (offersFor config dst receptions)
          (second dst) := by
  induction receptions generalizing first second with
  | nil => exact iff_of_true rfl fun _ => rfl
  | cons reception receptions ih =>
      rw [Transcript.run_cons, Transcript.run_cons, List.cons.injEq, reply_eq_iff, ih, ← forall_and]
      refine forall_congr' fun dst => ?_
      rw [decisions_offersFor_cons, decisions_offersFor_cons]
      by_cases policed : Policed config dst reception
      · simp [policed, bucketStep]
      · simp [policed, bucketStep]

end Buckets

/-! ## The run without the packet -/

section Without

variable {config : Config} {lifetime : ℤ}

/-- Every entry of the second ledger that is not older than the limit has an
entry in the first that is at least as new. -/
def Covers
    (limit : ℤ)
    (ledger without : Ledger ℕ DynamicValue) : Prop :=
  ∀ entry ∈ without.entries, limit ≤ entry.time →
    ∃ newer ∈ ledger.entries, newer.key = entry.key ∧ entry.time ≤ newer.time

namespace Covers

variable {limit : ℤ} {ledger without : Ledger ℕ DynamicValue}

theorem mono
    (covers : Covers limit ledger without)
    (le : limit ≤ later) :
    Covers later ledger without :=
  fun entry member young => covers entry member (le.trans young)

theorem expire
    (covers : Covers limit ledger without)
    (other : ℤ) :
    Covers other (ledger.expire limit) (without.expire limit) := by
  intro entry member _
  rw [Ledger.entries_expire, List.mem_filter, decide_eq_true_iff] at member
  obtain ⟨newer, newerMember, sameKey, le⟩ := covers entry member.1 member.2
  refine ⟨newer, ?_, sameKey, le⟩
  rw [Ledger.entries_expire, List.mem_filter, decide_eq_true_iff]
  exact ⟨newerMember, member.2.trans le⟩

theorem self (ledger : Ledger ℕ DynamicValue) : Covers limit ledger ledger :=
  fun entry member _ => ⟨entry, member, rfl, Int.le_refl _⟩

theorem size_le (covers : ∀ limit, Covers limit ledger without) :
    without.size ≤ ledger.size := by
  have subset : without.entries.map Ledger.Entry.key ⊆
      ledger.entries.map Ledger.Entry.key := by
    intro key member
    obtain ⟨entry, entryMember, rfl⟩ := List.mem_map.mp member
    obtain ⟨newer, newerMember, sameKey, _⟩ :=
      covers entry.time entry entryMember (Int.le_refl _)
    exact List.mem_map.mpr ⟨newer, newerMember, sameKey⟩
  simpa [Ledger.size] using (without.nodup.subperm subset).length_le

theorem put
    (covers : Covers limit ledger without)
    (dst : ℕ)
    (value other : DynamicValue)
    (now : ℤ) :
    Covers limit (ledger.put dst value now) (without.put dst other now) := by
  intro entry member young
  rcases Ledger.mem_put_iff.mp member with rfl | ⟨otherKey, old⟩
  · exact ⟨_, Ledger.mem_put_iff.mpr (.inl rfl), rfl, Int.le_refl _⟩
  · obtain ⟨newer, newerMember, sameKey, le⟩ := covers entry old young
    exact ⟨newer, Ledger.mem_put_iff.mpr (.inr ⟨sameKey ▸ otherKey, newerMember⟩), sameKey, le⟩

theorem put_left
    (covers : Covers limit ledger without)
    (missing : without.find dst = none)
    (value : DynamicValue)
    (now : ℤ) :
    Covers limit (ledger.put dst value now) without := by
  intro entry member young
  have otherKey := Ledger.find_eq_none_iff.mp missing entry member
  obtain ⟨newer, newerMember, sameKey, le⟩ := covers entry member young
  exact ⟨newer, Ledger.mem_put_iff.mpr (.inr ⟨sameKey ▸ otherKey, newerMember⟩), sameKey, le⟩

theorem find_eq_none
    (covers : ∀ limit, Covers limit ledger without)
    (missing : ledger.find dst = none) :
    without.find dst = none := by
  refine Ledger.find_eq_none_iff.mpr fun entry member isDst => ?_
  obtain ⟨newer, newerMember, sameKey, _⟩ :=
    covers entry.time entry member (Int.le_refl _)
  exact Ledger.find_eq_none_iff.mp missing newer newerMember (sameKey.trans isDst)

theorem checkLedger
    (covers : ∀ limit, Covers limit ledger without)
    (room : ledger.size < capacity)
    (burst rate dst size : ℕ)
    (now : ℤ) :
    Covers limit
      (Vigpol.checkLedger burst rate capacity dst size now ledger).2
      (Vigpol.checkLedger burst rate capacity dst size now without).2 := by
  rcases checkLedger_cases burst rate capacity dst size now ledger with
    ⟨missing, refused, same⟩ | ⟨level, _, written⟩
  · -- The packet is larger than the burst, and so it is refused in both runs.
    have large : burst < size := refused.resolve_right (Nat.not_le.mpr room)
    rcases checkLedger_cases burst rate capacity dst size now without with
      ⟨_, _, sameWithout⟩ | ⟨_, fits, _⟩
    · rw [same, sameWithout]
      exact covers limit
    · exact absurd (fits (find_eq_none covers missing)) (Nat.not_le.mpr large)
  · rcases checkLedger_cases burst rate capacity dst size now without with
      ⟨missing, _, sameWithout⟩ | ⟨other, _, writtenWithout⟩
    · rw [written, sameWithout]
      exact (covers limit).put_left missing _ now
    · rw [written, writtenWithout]
      exact (covers limit).put dst _ _ now

theorem ledgerStep
    (steady : minTime config.burst config.rate reception.now =
      reception.now - lifetime)
    (covers : Covers (reception.now - lifetime) ledger without)
    (room : ledger.size < config.dynCapacity) :
    Covers (reception.now - lifetime)
      (Vigpol.ledgerStep config reception ledger).2
      (Vigpol.ledgerStep config reception without).2 := by
  by_cases policed : Policed config reception.frame.dstAddr reception
  · rw [ledgerStep_of_policed policed, ledgerStep_of_policed policed, steady]
    exact checkLedger covers.expire ((Ledger.size_expire_le _ _).trans_lt room) _ _ _ _ _
  · rw [ledgerStep_of_not_policed policed, ledgerStep_of_not_policed policed, steady]
    dsimp only
    split_ifs
    · exact covers
    · exact covers.expire _

theorem roomy
    (steady : ∀ reception ∈ receptions,
      minTime config.burst config.rate reception.now = reception.now - lifetime)
    (ordered : receptions.Pairwise fun earlier later => earlier.now ≤ later.now)
    (covers : ∀ reception ∈ receptions,
      Covers (reception.now - lifetime) ledger without)
    (neverFull : Transcript.Always
      (fun ledger : Ledger ℕ DynamicValue => ledger.size < config.dynCapacity)
      (Vigpol.ledgerStep config) receptions ledger) :
    Roomy config receptions without := by
  induction receptions generalizing ledger without with
  | nil => trivial
  | cons reception receptions ih =>
      obtain ⟨first, rest⟩ := List.pairwise_cons.mp ordered
      have here := covers reception List.mem_cons_self
      have less := (size_le here.expire).trans (Ledger.size_expire_le _ _)
      obtain ⟨steadyHere, steadyLater⟩ := List.forall_mem_cons.mp steady
      rw [← steadyHere] at less
      refine ⟨decide_eq_true (less.trans_lt neverFull.1), ?_⟩
      refine ih steadyLater rest (fun other member => ?_) neverFull.2
      have later := first other member
      exact (here.ledgerStep steadyHere neverFull.1).mono (by omega)

theorem of_packet
    (steady : minTime config.burst config.rate reception.now =
      reception.now - lifetime)
    (timed : Timed reception.now ledger) :
    Covers (reception.now - lifetime)
      (Vigpol.ledgerStep config reception ledger).2 ledger := by
  have expired : Covers (reception.now - lifetime)
      (ledger.expire (reception.now - lifetime)) ledger := by
    intro entry member young
    refine ⟨entry, ?_, rfl, Int.le_refl _⟩
    rw [Ledger.entries_expire, List.mem_filter, decide_eq_true_iff]
    exact ⟨member, young⟩
  by_cases policed : Policed config reception.frame.dstAddr reception
  · rw [ledgerStep_of_policed policed, steady]
    dsimp only
    rcases checkLedger_cases config.burst config.rate config.dynCapacity
      reception.frame.dstAddr reception.frame.packetLength.toNat reception.now
      (ledger.expire (reception.now - lifetime)) with
      ⟨_, _, same⟩ | ⟨value, _, written⟩
    · rw [same]
      exact expired
    · rw [written]
      intro entry member young
      by_cases isDst : entry.key = reception.frame.dstAddr
      · exact ⟨_, Ledger.mem_put_iff.mpr (.inl rfl), isDst.symm, timed.notAfter entry member⟩
      · obtain ⟨newer, newerMember, sameKey, le⟩ := expired entry member young
        exact ⟨newer, Ledger.mem_put_iff.mpr (.inr ⟨sameKey ▸ isDst, newerMember⟩), sameKey, le⟩
  · rw [ledgerStep_of_not_policed policed, steady]
    dsimp only
    split_ifs
    · exact self ledger
    · exact expired

end Covers

/-- The table of a run on the ledger is never full. -/
def NeverFullLedger
    (config : Config)
    (receptions : List Reception)
    (ledger : Ledger ℕ DynamicValue) : Prop :=
  Transcript.Always
    (fun ledger : Ledger ℕ DynamicValue => ledger.size < config.dynCapacity)
    (ledgerStep config) receptions ledger

/-- However the run goes on, the packets after this one are treated the same
without it. -/
def CostsNothing
    (config : Config)
    (dropped : Reception)
    (ledger : Ledger ℕ DynamicValue) : Prop :=
  ∀ after : List Reception,
    ((dropped :: after).Pairwise fun earlier later => earlier.now ≤ later.now) →
    (∀ reception ∈ after, reception.now < 2 ^ 63) →
    NeverFullLedger config (dropped :: after) ledger →
      (Transcript.run (ledgerStep config) after (ledgerStep config dropped ledger).2).1 =
        (Transcript.run (ledgerStep config) after ledger).1

/-- The packets after one that is left out are treated the same exactly if all
buckets take the same decisions. -/
theorem replies_without_iff
    (steady : ∀ reception ∈ dropped :: after,
      minTime config.burst config.rate reception.now = reception.now - lifetime)
    (follows : Follows lifetime dropped.now ledger buckets)
    (ordered : (dropped :: after).Pairwise fun earlier later =>
      earlier.now ≤ later.now)
    (neverFull : NeverFullLedger config (dropped :: after) ledger) :
    (Transcript.run (ledgerStep config) after
        (ledgerStep config dropped ledger).2).1 =
        (Transcript.run (ledgerStep config) after ledger).1 ↔
      ∀ dst, decisions (config.limitsFor lifetime) (offersFor config dst after)
          (nextBuckets config lifetime dropped true buckets dst) =
        decisions (config.limitsFor lifetime) (offersFor config dst after)
          (buckets dst) := by
  obtain ⟨first, rest⟩ := List.pairwise_cons.mp ordered
  obtain ⟨steadyHere, steadyLater⟩ := List.forall_mem_cons.mp steady
  have roomyWith : Roomy config (dropped :: after) ledger :=
    Covers.roomy steady ordered (fun _ _ => Covers.self ledger) neverFull
  have roomyWithout : Roomy config after ledger := by
    refine Covers.roomy steadyLater rest (fun reception member => ?_) neverFull.2
    have later := first reception member
    exact (Covers.of_packet steadyHere follows.toTimed).mono (by omega)
  have kept := (follows.bucketStep steadyHere roomyWith.1).2
  have repliesWith := Follows.replies_eq steadyLater rest
    (fun reception member => kept.mono (first reception member)) roomyWith.2
  have repliesWithout := Follows.replies_eq steadyLater rest
    (fun reception member => follows.mono (first reception member)) roomyWithout
  rw [repliesWith, repliesWithout, replies_eq_iff]
  rfl

end Without

/-! ## The effect of a dropped packet -/

section Effect

variable
  {config : Config}
  {lifetime : ℤ}
  {dropped : Reception}
  {dst : ℕ}
  {buckets : ℕ → Option Bucket}

theorem nextBuckets_of_refused
    (policed : Policed config dst dropped)
    (isRefused :
      (accept (config.limitsFor lifetime) (offerOf dropped true)
        (buckets dst)).1 = false) :
    (remembered (config.limitsFor lifetime) dropped.now (buckets dst) = none ∧
        nextBuckets config lifetime dropped true buckets dst = buckets dst) ∨
      ∃ found, buckets dst = some found ∧
        dropped.now - found.time ≤ lifetime ∧
        nextBuckets config lifetime dropped true buckets dst =
          some (refused (config.limitsFor lifetime) dropped.now found) := by
  rw [nextBuckets, if_pos policed]
  rcases accept_cases (config.limitsFor lifetime) (offerOf dropped true) (buckets dst) with
    ⟨missing, outcome⟩ | ⟨_, _, _, outcome⟩ | ⟨found, isFound, young, ⟨_, outcome⟩ | ⟨_, outcome⟩⟩
  · exact .inl ⟨missing, by rw [outcome]⟩
  · rw [outcome] at isRefused
    cases isRefused
  · rw [outcome] at isRefused
    cases isRefused
  · exact .inr ⟨found, isFound, young, by rw [outcome]; rfl⟩

theorem refused_of_dropped
    (policed : Policed config dst dropped)
    (isDropped : (bucketStep config lifetime dropped buckets).1 =
      dropped.device) :
    (accept (config.limitsFor lifetime) (offerOf dropped true)
      (buckets dst)).1 = false := by
  rw [bucketStep_of_policed policed] at isDropped
  by_contra accepted
  rw [if_pos (by simpa using accepted)] at isDropped
  exact policed.2.1 isDropped.symm

theorem after_offersFor
    (ordered : (dropped :: after).Pairwise fun earlier later =>
      earlier.now ≤ later.now)
    (inTime : ∀ reception ∈ after, reception.now < horizon)
    (dst : ℕ) :
    After (2 ^ 16 - 1) dropped.now horizon (offersFor config dst after) := by
  obtain ⟨first, rest⟩ := List.pairwise_cons.mp ordered
  constructor
  · exact List.pairwise_map.mpr (rest.sublist List.filter_sublist)
  all_goals
    intro offer member
    obtain ⟨reception, filtered, rfl⟩ := List.mem_map.mp member
  · exact first reception (List.mem_of_mem_filter filtered)
  · exact inTime reception (List.mem_of_mem_filter filtered)
  · exact Nat.le_pred_of_lt reception.frame.packetLength.toNat_lt
  · rfl

/-- Packets to one destination that offers ask for. -/
def probes
    (config : Config)
    (dst : ℕ)
    (offers : List Offer) : List Reception :=
  offers.map fun offer => probe config dst offer.size offer.now

theorem offersFor_probes
    (different : config.lanDevice ≠ config.wanDevice)
    (atOnce : AtOnce (2 ^ 16 - 1) now offers) :
    offersFor config dst (probes config dst offers) = offers := by
  have all : (probes config dst offers).filter (fun reception =>
      Policed config dst reception) = probes config dst offers := by
    refine List.filter_eq_self.mpr fun reception member => ?_
    obtain ⟨offer, _, rfl⟩ := List.mem_map.mp member
    exact decide_eq_true (policed_probe different _ _ _)
  rw [offersFor, all, probes, List.map_map]
  refine (List.map_congr_left fun offer member => ?_).trans (List.map_id offers)
  rw [Function.comp_apply, offerOf_probe (atOnce.small offer member), ← atOnce.roomy offer member]
  rfl

variable {ledger : Ledger ℕ DynamicValue}

/-- Packets at one time to a destination that has a bucket need no room. -/
theorem neverFull_probes
    (different : config.lanDevice ≠ config.wanDevice)
    (steady : minTime config.burst config.rate now = now - lifetime)
    (lasting : 0 ≤ lifetime)
    (atOnce : AtOnce (2 ^ 16 - 1) now offers)
    (room : ledger.size < config.dynCapacity)
    (present : ∃ entry ∈ ledger.entries, entry.key = dst ∧
      now - lifetime ≤ entry.time) :
    NeverFullLedger config (probes config dst offers) ledger := by
  induction offers generalizing ledger with
  | nil => exact room
  | cons offer offers ih =>
      obtain ⟨here, times⟩ := List.forall_mem_cons.mp atOnce.times
      have small := (List.forall_mem_cons.mp atOnce.small).2
      have roomy := (List.forall_mem_cons.mp atOnce.roomy).2
      have found : (ledger.expire (now - lifetime)).find dst ≠
          none := by
        intro missing
        obtain ⟨entry, member, isDst, young⟩ := present
        refine Ledger.find_eq_none_iff.mp missing entry ?_ isDst
        rw [Ledger.entries_expire, List.mem_filter, decide_eq_true_iff]
        exact ⟨member, young⟩
      have step : ∃ value, (ledgerStep config
          (probe config dst offer.size offer.now) ledger).2 =
            (ledger.expire (now - lifetime)).put dst value now := by
        rw [ledgerStep_of_policed (policed_probe different dst offer.size offer.now)]
        change ∃ value, (Vigpol.checkLedger _ _ _ _ _ offer.now (ledger.expire
          (minTime config.burst config.rate offer.now))).2 = _
        rw [here, steady]
        rcases checkLedger_cases config.burst config.rate config.dynCapacity dst
          (probe config dst offer.size offer.now).frame.packetLength.toNat now
          (ledger.expire (now - lifetime)) with
          ⟨missing, _⟩ | ⟨value, _, written⟩
        · exact absurd missing found
        · exact ⟨_, written⟩
      obtain ⟨value, written⟩ := step
      refine ⟨room, ih ⟨times, small, roomy⟩ ?_ ?_⟩
      · rw [written, Ledger.size_put_of_present found]
        exact (Ledger.size_expire_le _ _).trans_lt room
      · rw [written]
        exact ⟨_, Ledger.mem_put_iff.mpr (.inl rfl), rfl, by dsimp only; omega⟩

theorem Follows.exists_entry
    (follows : Follows lifetime now ledger buckets)
    (isFound : buckets dst = some found)
    (young : now - found.time ≤ lifetime) :
    ∃ entry,
      ledger.find dst = some entry ∧
        found = ⟨entry.data.bucketSize, entry.time⟩ := by
  cases search : ledger.find dst with
  | none =>
      have old := follows.absent dst search found isFound
      omega
  | some entry =>
      have isEntry := follows.present dst entry search
      exact ⟨entry, rfl, Option.some.inj (isFound.symm.trans isEntry)⟩

theorem exists_entry_of_refused
    (steady : minTime config.burst config.rate dropped.now =
      dropped.now - lifetime)
    (follows : Follows lifetime dropped.now ledger buckets)
    (policed : Policed config dst dropped)
    (isFound : buckets dst = some found)
    (young : dropped.now - found.time ≤ lifetime) :
    ∃ entry ∈ (ledgerStep config dropped ledger).2.entries, entry.key = dst ∧
      entry.time = dropped.now := by
  rw [ledgerStep_of_policed policed, steady]
  dsimp only
  rcases checkLedger_cases config.burst config.rate config.dynCapacity dst
    dropped.frame.packetLength.toNat dropped.now
    (ledger.expire (dropped.now - lifetime)) with
    ⟨missing, _⟩ | ⟨value, _, written⟩
  · have old := follows.expire.absent _ missing found isFound
    omega
  · rw [written]
    exact ⟨_, Ledger.mem_put_iff.mpr (.inl rfl), rfl, rfl⟩

theorem replies_without_iff_harmless
    (noWrap : config.burst < 2 ^ 64)
    (steady : ∀ now, dropped.now ≤ now → now < 2 ^ 63 →
      minTime config.burst config.rate now = now - lifetime)
    (inTime : dropped.now < 2 ^ 63)
    (follows : Follows lifetime dropped.now ledger buckets)
    (neverFull : NeverFullLedger config [dropped] ledger)
    (policed : Policed config dst dropped)
    (isDropped : (bucketStep config lifetime dropped buckets).1 =
      dropped.device) :
    CostsNothing config dropped ledger ↔
      (∀ found, buckets dst = some found →
        dropped.now - found.time ≤ lifetime →
          Harmless (config.limitsFor lifetime) (2 ^ 16 - 1) dropped.now (2 ^ 63)
            found) := by
  have steadyHere := steady dropped.now (Int.le_refl _) inTime
  have steadyAll : ∀ after : List Reception,
      ((dropped :: after).Pairwise fun earlier later => earlier.now ≤ later.now) →
      (∀ reception ∈ after, reception.now < 2 ^ 63) →
        ∀ reception ∈ dropped :: after,
          minTime config.burst config.rate reception.now = reception.now - lifetime :=
    fun after ordered inTimeLater => List.forall_mem_cons.mpr ⟨steadyHere,
      fun reception member => steady _
        ((List.pairwise_cons.mp ordered).1 reception member)
        (inTimeLater reception member)⟩
  constructor
  · intro same found isFound young
    have different := policed.different
    refine harmless_of_decisions_eq noWrap (by decide) ?_
    intro gap inTimeGap short offers atOnce
    rw [limits_lifetime] at short
    -- The offers become packets to the destination, which still has its bucket.
    have times : ∀ reception ∈ probes config dst offers,
        reception.now = dropped.now + gap := by
      intro reception member
      obtain ⟨offer, offered, rfl⟩ := List.mem_map.mp member
      exact atOnce.times offer offered
    have ordered : (dropped :: probes config dst
        offers).Pairwise fun earlier later => earlier.now ≤ later.now := by
      refine List.pairwise_cons.mpr ⟨fun reception member => ?_, ?_⟩
      · rw [times reception member]
        omega
      · refine List.Pairwise.imp_of_mem (fun first second => ?_)
          (List.pairwise_of_forall fun _ _ => trivial)
        intro _
        rw [times _ first, times _ second]
    have inTimeLater : ∀ reception ∈ probes config dst offers,
        reception.now < 2 ^ 63 :=
      fun reception member => (times reception member).trans_lt inTimeGap
    obtain ⟨entry, member, isDst, isNow⟩ :=
      exists_entry_of_refused steadyHere follows policed isFound young
    have still : NeverFullLedger config (dropped :: probes config dst offers) ledger :=
      ⟨neverFull.1, neverFull_probes different (steady _ (by omega) inTimeGap)
        (by omega) atOnce neverFull.2 ⟨entry, member, isDst, by omega⟩⟩
    have decided := (replies_without_iff (steadyAll _ ordered inTimeLater) follows
      ordered still).mp (same _ ordered inTimeLater still) dst
    rw [offersFor_probes different atOnce] at decided
    rcases nextBuckets_of_refused policed (refused_of_dropped policed isDropped)
      with ⟨missing, _⟩ | ⟨other, isOther, _, left⟩
    · have old := remembered_eq_none_iff.mp missing found isFound
      rw [limits_lifetime] at old
      omega
    · obtain rfl := Option.some.inj (isFound.symm.trans isOther)
      rw [left, isFound] at decided
      exact decided
  · intro harmless after ordered inTimeLater still
    refine (replies_without_iff (steadyAll _ ordered inTimeLater)
      follows ordered still).mpr fun other => ?_
    by_cases isOther : Policed config other dropped
    · obtain rfl : dst = other := policed.2.2.2.symm.trans isOther.2.2.2
      rcases nextBuckets_of_refused policed (refused_of_dropped policed isDropped)
        with ⟨_, unchanged⟩ | ⟨found, isFound, young, left⟩
      · rw [unchanged]
      · obtain ⟨entry, isEntry, rfl⟩ := follows.exists_entry isFound young
        have notAfter : entry.time ≤ dropped.now :=
          follows.notAfter entry (Ledger.find_eq_some_iff.mp isEntry).1
        rw [left, isFound]
        exact (harmless _ isFound young).decisions_eq notAfter
          (after_offersFor ordered inTimeLater _)
    · rw [nextBuckets, if_neg isOther]

theorem refillAgrees_iff
    {value : DynamicValue}
    (steady : ∀ later, now ≤ later → later < 2 ^ 63 →
      minTime config.burst config.rate later = later - lifetime) :
    RefillAgrees config now value ↔
      Harmless (config.limitsFor lifetime) (2 ^ 16 - 1) now (2 ^ 63)
        ⟨value.bucketSize, value.bucketTime⟩ := by
  unfold RefillAgrees Harmless
  simp only [refill_eq lifetime, levelAt, limits_burst, limits_lifetime,
    Int.sub_right_le_iff_le_add]
  constructor
  · intro agrees gap inTime short
    have here := agrees (now + gap) (by omega) inTime
    rw [steady _ (by omega) inTime, add_sub_cancel_left, Int.toNat_natCast] at here
    obtain ⟨remains, ends⟩ := here (by omega)
    exact ⟨fun young => remains (by omega), fun old => ends (by omega)⟩
  · intro harmless later notBefore inTime young
    obtain ⟨gap, isGap⟩ := Int.eq_ofNat_of_zero_le (sub_nonneg.mpr notBefore)
    obtain rfl : later = now + gap := by omega
    rw [steady _ notBefore inTime] at young ⊢
    rw [add_sub_cancel_left, Int.toNat_natCast]
    obtain ⟨remains, ends⟩ := harmless gap inTime (by omega)
    exact ⟨fun young => remains (by omega), fun old => ends (by omega)⟩

end Effect

/-! ## The clock -/

section Clock

variable {config : Config} {dropped : Reception} {ledger : Ledger ℕ DynamicValue}

theorem expTime_bounds (burst rate : ℕ) :
    -2 ^ 63 ≤ expTime burst rate ∧ expTime burst rate < 2 ^ 63 := by
  unfold expTime
  generalize (secondsMultiplier : ℤ) * (burst / rate) = product
  have least := Int.le_bmod (x := product) (m := 2 ^ 64) (by decide)
  have most := Int.bmod_lt (x := product) (m := 2 ^ 64) (by decide)
  omega

theorem minTime_eq_bmod
    (notNegative : 0 ≤ time)
    (inTime : time < 2 ^ 63) :
    minTime burst rate time = (time - expTime burst rate).bmod (2 ^ 64) := by
  have bounds := expTime_bounds burst rate
  unfold minTime
  generalize expTime burst rate = lifetime at *
  split_ifs with lasting
  · exact (Int.bmod_eq_of_le_mul_two (by omega) (by omega)).symm
  · rfl

theorem minTime_steady
    (notNegative : 0 ≤ start)
    (remembers : minTime burst rate start ≤ start)
    (notBefore : start ≤ now)
    (inTime : now < 2 ^ 63) :
    minTime burst rate now = now - (start - minTime burst rate start) := by
  have bounds := expTime_bounds burst rate
  rw [minTime_eq_bmod notNegative (by omega)] at remembers ⊢
  rw [minTime_eq_bmod (by omega) inTime]
  generalize expTime burst rate = lifetime at *
  simp only [Int.bmod_def] at remembers ⊢
  split_ifs at remembers ⊢ <;> omega

theorem remembers_of_dropped
    (positive : 0 < config.dynCapacity)
    (timed : Timed dropped.now ledger)
    (policed : Policed config dst dropped)
    (isDropped : (ledgerStep config dropped ledger).1 = dropped.device) :
    minTime config.burst config.rate dropped.now ≤ dropped.now := by
  by_contra forgets
  -- Otherwise all buckets have expired, and the burst is larger than any packet.
  have none : (ledger.expire (minTime config.burst config.rate dropped.now)).entries =
      [] := by
    refine List.eq_nil_iff_forall_not_mem.mpr fun entry member => ?_
    rw [Ledger.entries_expire, List.mem_filter, decide_eq_true_iff] at member
    exact forgets (member.2.trans (timed.notAfter entry member.1))
  have missing : (ledger.expire (minTime config.burst config.rate dropped.now)).find
      dst = Option.none :=
    Ledger.find_eq_none_iff.mpr fun entry member =>
      absurd (none ▸ member) List.not_mem_nil
  have large : ¬dropped.frame.packetLength.toNat > config.burst := by
    have small := dropped.frame.packetLength.toNat_lt
    intro larger
    have bounded : config.burst * secondsMultiplier < 2 ^ 63 := by
      rw [secondsMultiplier]
      omega
    have lasting := expTime_nonneg bounded
    rw [minTime_of_nonneg lasting] at forgets
    omega
  rw [ledgerStep_of_policed policed, checkLedger, missing] at isDropped
  dsimp only at isDropped
  rw [if_neg large, Ledger.size, none, List.length_nil, if_pos positive] at isDropped
  exact policed.2.1 isDropped.symm

/-- The buckets that a ledger holds. -/
def bucketsOf
    (ledger : Ledger ℕ DynamicValue)
    (dst : ℕ) : Option Bucket :=
  (ledger.find dst).map fun entry => ⟨entry.data.bucketSize, entry.time⟩

theorem Timed.follows
    (timed : Timed now ledger)
    (lifetime : ℤ) :
    Follows lifetime now ledger (bucketsOf ledger) where
  toTimed := timed
  present dst entry found := by
    rw [bucketsOf, found]
    rfl
  absent dst missing bucket member := by
    rw [bucketsOf, missing] at member
    cases member

/-- In a run from the empty ledger the entries stay in the past. -/
theorem timed_run
    (ordered : receptions.Pairwise fun earlier later => earlier.now ≤ later.now)
    (isLast : ∀ reception ∈ receptions, reception.now ≤ last) :
    Timed last (Transcript.run (ledgerStep config) receptions .empty).2 :=
  ((Transcript.timed_run_refines Reception.now
    (fun now first second => Timed now first ∧ first = second)
    (fun le kept => ⟨kept.1.mono le, kept.2⟩)
    (fun reception _ _ kept _ => ⟨by rw [kept.2], kept.1.ledgerStep config,
      by rw [kept.2]⟩)
    ordered (fun reception _ => ⟨.initial reception.now, rfl⟩)
    (Transcript.permitted_of_forall (fun _ _ _ => trivial) _)).2 last isLast
      ⟨.initial last, rfl⟩).1

theorem replies_of_same_device
    (same : config.lanDevice = config.wanDevice)
    (receptions : List Reception)
    (first second : Ledger ℕ DynamicValue) :
    (Transcript.run (ledgerStep config) receptions first).1 =
      (Transcript.run (ledgerStep config) receptions second).1 := by
  induction receptions generalizing first second with
  | nil => rfl
  | cons reception receptions ih =>
      have notPoliced : ¬Policed config reception.frame.dstAddr reception :=
        fun policed => policed.different same
      rw [Transcript.run_cons, Transcript.run_cons, ledgerStep_of_not_policed notPoliced,
        ledgerStep_of_not_policed notPoliced, ih]

theorem replies_of_not_policed
    (isWan : dropped.device = config.wanDevice)
    (notPoliced : ¬Policed config dropped.frame.dstAddr dropped)
    (after : List Reception) :
    (Transcript.run (ledgerStep config) after
        (ledgerStep config dropped ledger).2).1 =
      (Transcript.run (ledgerStep config) after ledger).1 := by
  by_cases notIpv4 : dropped.frame.isIpv4 = false
  · rw [ledgerStep, if_pos notIpv4]
  · have isLan : dropped.device = config.lanDevice := by
      by_contra notLan
      exact notPoliced ⟨by simpa using notIpv4, notLan, isWan, rfl⟩
    exact replies_of_same_device (isLan.symm.trans isWan) after _ _

end Clock

section Code

variable
  {config : Config}
  {build : Map.Build}
  {hash : ℕ → ℕ}
  {state : State}

theorem neverFull_iff
    (fresh : ∀ now, state.Keeps config.dynCapacity build hash now .empty)
    (ordered : receptions.Pairwise fun earlier later =>
      earlier.now ≤ later.now) :
    NeverFull config build (.ofHash hash) receptions state ↔
      NeverFullLedger config receptions .empty := by
  rw [NeverFullLedger, Transcript.always_iff]
  refine forall_congr' fun first => forall_congr' fun rest =>
    forall_congr' fun whole => ?_
  have orderedFirst := (List.pairwise_append.mp (whole ▸ ordered)).1
  obtain ⟨final, returns, last, kept⟩ := run_returns fresh orderedFirst
  have count := FlowTable.Keeps.allocatedCount_eq kept
  constructor
  · intro never
    rw [← count]
    exact never _ final returns
  · intro less dstDevices other otherReturns
    obtain ⟨_, rfl⟩ := Prod.mk.inj (otherReturns.unique returns)
    rw [count]
    exact less

theorem neverFull_of_take
    (fuel : ℕ)
    (spare : ∀ count ∈ List.range (receptions.length + 1),
      ((run config build ops (receptions.take count) state).run fuel).any
        (fun reached => FlowTable.allocatedCount reached.2.table.chain
          config.dynCapacity < config.dynCapacity) = true) :
    NeverFull config build ops receptions state := by
  rintro first rest rfl dstDevices final returns
  have here := spare first.length (List.mem_range.mpr (by rw [List.length_append]; omega))
  rw [List.take_left] at here
  obtain ⟨reached, atFuel, less⟩ := Option.any_eq_true _ _ |>.mp here
  obtain rfl := Fuelled.Returns.unique ⟨fuel, atFuel⟩ returns
  exact of_decide_eq_true less

theorem dropHarmless_iff
    (steady : ∀ later, dropped.now ≤ later → later < 2 ^ 63 →
      minTime config.burst config.rate later = later - lifetime)
    (inTime : dropped.now < 2 ^ 63)
    (keeps : state.Keeps config.dynCapacity build hash last ledger)
    (follows : Follows lifetime dropped.now ledger buckets)
    (policed : Policed config dropped.frame.dstAddr dropped) :
    DropHarmless config build (.ofHash hash) dropped state ↔
      (∀ found, buckets dropped.frame.dstAddr = some found →
        dropped.now - found.time ≤ lifetime →
          Harmless (config.limitsFor lifetime) (2 ^ 16 - 1) dropped.now (2 ^ 63)
            found) := by
  rw [DropHarmless, forall_prop_of_true policed, steady _ (Int.le_refl _) inTime]
  simp only [refillAgrees_iff steady]
  constructor
  · intro harmless found isFound young
    obtain ⟨entry, isEntry, rfl⟩ := follows.exists_entry isFound young
    cases search : state.table.keys.get build (.ofHash hash) (.own dropped.frame.dstAddr) with
    | none =>
        rw [FlowTable.Keeps.find_eq_none keeps search] at isEntry
        cases isEntry
    | some index =>
        obtain ⟨time, isRecord⟩ := FlowTable.Keeps.find_of_get keeps search
        obtain rfl := Option.some.inj (isEntry.symm.trans isRecord)
        have timed := follows.timed _ (Ledger.find_eq_some_iff.mp isEntry).1
        dsimp only at timed young
        have agrees := harmless index search (by omega)
        rw [timed] at agrees
        exact agrees
  · intro harmless index search young
    obtain ⟨time, isRecord⟩ := FlowTable.Keeps.find_of_get keeps search
    have timed := follows.timed _ (Ledger.find_eq_some_iff.mp isRecord).1
    dsimp only at timed
    rw [timed] at young ⊢
    exact harmless _ (follows.present _ _ isRecord) (by dsimp only; omega)

theorem runs_without_iff
    (fresh : ∀ now, state.Keeps config.dynCapacity build hash now .empty)
    (ordered : (before ++ [dropped]).Pairwise fun earlier later =>
      earlier.now ≤ later.now)
    (neverBefore : NeverFullLedger config before .empty)
    (repliesBefore :
      dstDevices = (Transcript.run (ledgerStep config) before .empty).1)
    (isLedger : (Transcript.run (ledgerStep config) before .empty).2 = ledger)
    (isDropped : (ledgerStep config dropped ledger).1 = dropped.device) :
    (∀ after : List Reception,
      ((before ++ dropped :: after).Pairwise fun earlier later =>
        earlier.now ≤ later.now) →
      (∀ reception ∈ after, reception.now < 2 ^ 63) →
      NeverFull config build (.ofHash hash) (before ++ dropped :: after) state →
        ∃ others final final',
          (run config build (.ofHash hash) (before ++ dropped :: after)
            state).Returns (dstDevices ++ dropped.device :: others, final) ∧
          (run config build (.ofHash hash) (before ++ after) state).Returns
            (dstDevices ++ others, final')) ↔
      CostsNothing config dropped ledger := by
  subst isLedger
  refine forall_congr' fun after => ?_
  obtain ⟨orderedBefore, _, notAfter⟩ := List.pairwise_append.mp ordered
  have orders : ((before ++ dropped :: after).Pairwise fun earlier later =>
      earlier.now ≤ later.now) ↔
        (dropped :: after).Pairwise fun earlier later => earlier.now ≤ later.now := by
    refine ⟨fun orderedAll => (List.pairwise_append.mp orderedAll).2.1,
      fun orderedAfter => List.pairwise_append.mpr ⟨orderedBefore, orderedAfter, ?_⟩⟩
    intro first firstMember second secondMember
    refine (notAfter first firstMember dropped List.mem_cons_self).trans ?_
    rcases List.mem_cons.mp secondMember with rfl | member
    · exact Int.le_refl _
    · exact (List.pairwise_cons.mp orderedAfter).1 second member
  rw [orders]
  refine forall_congr' fun orderedAfter => forall_congr' fun _ => ?_
  have orderedAll := orders.mpr orderedAfter
  rw [(neverFull_iff fresh orderedAll).trans
    (Transcript.always_append.trans (and_iff_right neverBefore))]
  refine forall_congr' fun _ => ?_
  obtain ⟨final, returns, _⟩ := run_returns fresh orderedAll
  obtain ⟨final', returns', _⟩ := run_returns fresh (orderedAll.sublist
    ((List.Sublist.refl before).append (List.sublist_cons_self dropped after)))
  rw [Transcript.run_append, Transcript.run_cons, isDropped, ← repliesBefore] at returns
  rw [Transcript.run_append, ← repliesBefore] at returns'
  constructor
  · rintro ⟨others, other, other', otherReturns, otherReturns'⟩
    have same := (Prod.mk.inj (returns.unique otherReturns)).1
    have same' := (Prod.mk.inj (returns'.unique otherReturns')).1
    rw [List.append_cancel_left same', (List.cons.inj (List.append_cancel_left same)).2]
  · intro same
    rw [same] at returns
    exact ⟨_, final, final', returns, returns'⟩

end Code

/-- A packet from the WAN device that the policer drops, in a run with
nondecreasing times in which the table is never full: however the run goes on,
all other packets are sent to the same devices without the packet, exactly when
the condition holds in the state before the packet. -/
theorem policer_drop_costs_nothing_iff
    (config : Config)
    (build : Map.Build)
    (hash : ℕ → ℕ)
    (mapMemory : Map.Arrays (KeyRef ℕ))
    (vector : ℤ → ℕ)
    (chainMemory : DoubleChain)
    (dynVals : ℤ → DynamicValue)
    {state : State}
    (noWrap : config.burst < 2 ^ 64)
    (positive : 0 < config.dynCapacity)
    (bounded : config.dynCapacity < 2 ^ 31)
    (allocated : allocState build mapMemory vector chainMemory dynVals
      config.dynCapacity = some state)
    {before : List Reception}
    {dropped : Reception}
    {dstDevices : List ℕ}
    {middle following : State}
    (ordered : (before ++ [dropped]).Pairwise fun earlier later =>
      earlier.now ≤ later.now)
    (notNegative : 0 ≤ dropped.now)
    (inTime : dropped.now < 2 ^ 63)
    (neverFull : NeverFull config build (.ofHash hash)
      (before ++ [dropped]) state)
    (runsBefore : (run config build (.ofHash hash) before state).Returns
      (dstDevices, middle))
    (isWan : dropped.device = config.wanDevice)
    (isDropped : (run config build (.ofHash hash) (before ++ [dropped])
      state).Returns (dstDevices ++ [dropped.device], following)) :
    (∀ after : List Reception,
      ((before ++ dropped :: after).Pairwise fun earlier later =>
        earlier.now ≤ later.now) →
      (∀ reception ∈ after, reception.now < 2 ^ 63) →
      NeverFull config build (.ofHash hash) (before ++ dropped :: after) state →
        ∃ others final final',
          (run config build (.ofHash hash) (before ++ dropped :: after)
            state).Returns (dstDevices ++ dropped.device :: others, final) ∧
          (run config build (.ofHash hash) (before ++ after) state).Returns
            (dstDevices ++ others, final')) ↔
      DropHarmless config build (.ofHash hash) dropped middle := by
  obtain ⟨table, built, rfl⟩ := Option.map_eq_some_iff.mp allocated
  have fresh : ∀ now, State.Keeps config.dynCapacity build hash now
      { table := table, dynVals := dynVals } .empty :=
    fun now => FlowTable.Keeps.allocate positive bounded built dynVals now
  obtain ⟨orderedBefore, _, notAfter⟩ := List.pairwise_append.mp ordered
  -- The states of the code and of the ledger before the packet.
  obtain ⟨_, returns, last, keeps⟩ := run_returns fresh orderedBefore
  obtain ⟨repliesBefore, rfl⟩ := Prod.mk.inj (runsBefore.unique returns)
  obtain ⟨neverBefore, neverDropped⟩ :=
    Transcript.always_append.mp ((neverFull_iff fresh ordered).mp neverFull)
  obtain ⟨_, returnsDropped, _⟩ := run_returns fresh ordered
  have replies := (Prod.mk.inj (isDropped.unique returnsDropped)).1
  rw [Transcript.run_append, ← repliesBefore, Transcript.run_cons] at replies
  have reply := (List.cons.inj (List.append_cancel_left replies)).1.symm
  have timed : Timed dropped.now (Transcript.run (ledgerStep config) before .empty).2 :=
    timed_run orderedBefore fun reception member =>
      notAfter reception member dropped List.mem_cons_self
  generalize isLedger : (Transcript.run (ledgerStep config) before .empty).2 = ledger at *
  rw [runs_without_iff fresh ordered neverBefore repliesBefore isLedger reply]
  by_cases policed : Policed config dropped.frame.dstAddr dropped
  · have remembers := remembers_of_dropped positive timed policed reply
    have steady : ∀ now, dropped.now ≤ now → now < 2 ^ 63 →
        minTime config.burst config.rate now =
          now - (dropped.now - minTime config.burst config.rate dropped.now) :=
      fun _ => minTime_steady notNegative remembers
    have follows := timed.follows
      (dropped.now - minTime config.burst config.rate dropped.now)
    have room : config.hasRoom dropped ledger = true :=
      decide_eq_true ((Ledger.size_expire_le _ _).trans_lt neverDropped.1)
    have refusal :=
      (follows.bucketStep (steady _ (Int.le_refl _) inTime) room).1.symm.trans reply
    rw [dropHarmless_iff steady inTime keeps follows policed]
    exact replies_without_iff_harmless noWrap steady inTime follows neverDropped
      policed refusal
  · exact iff_of_true
      (fun after _ _ _ => replies_of_not_policed isWan policed after)
      fun isPoliced => absurd isPoliced policed

/-- A packet that is dropped at the time of the last refill costs nothing. -/
theorem policer_drop_costs_nothing_at_once :
    let config : Config := ⟨1, 0, 1000, 1000, 2⟩
    let hash : ℕ → ℕ := id
    let memory : Map.Arrays (KeyRef ℕ) := ⟨fun _ => 1, fun _ => .own 0,
      fun _ => 0, fun _ => 1, fun _ => 0⟩
    let chainMemory : DoubleChain := ⟨fun _ => ⟨0, 0⟩, fun _ => 0⟩
    let dynVals : ℤ → DynamicValue := fun _ => ⟨0, 0⟩
    let state : State := ⟨⟨dchainAllocate chainMemory 2,
      ⟨⟨Map.mapImplInit memory 2, 2, 0⟩, fun _ => 0, []⟩⟩, dynVals⟩
    let before : List Reception := [⟨5, 0, ⟨true, true, 5, 7, 6, 1, 1, 400⟩⟩]
    let dropped : Reception := ⟨5, 0, ⟨true, true, 5, 7, 6, 1, 1, 700⟩⟩
    let after : List Reception := [⟨6, 0, ⟨true, true, 5, 7, 6, 1, 1, 500⟩⟩]
    allocState .modulo memory (fun _ => 0) chainMemory dynVals 2 = some state ∧
      ∃ others final final',
        (run config .modulo (.ofHash hash) (before ++ dropped :: after)
          state).Returns ([1] ++ 0 :: others, final) ∧
        (run config .modulo (.ofHash hash) (before ++ after) state).Returns
          ([1] ++ others, final') := by
  intro config hash memory chainMemory dynVals state before dropped after
  have computed : ((run config .modulo (.ofHash hash) before state).run 9).map
      Prod.fst = some [1] := by
    decide
  obtain ⟨⟨_, middle⟩, atFuel, rfl⟩ := Option.map_eq_some_iff.mp computed
  have computedDropped : ((run config .modulo (.ofHash hash) (before ++ [dropped])
      state).run 9).map Prod.fst = some [1, 0] := by
    decide
  obtain ⟨⟨_, following⟩, atFuelDropped, rfl⟩ :=
    Option.map_eq_some_iff.mp computedDropped
  refine ⟨rfl, ?_⟩
  refine (policer_drop_costs_nothing_iff config .modulo hash memory (fun _ => 0)
    chainMemory dynVals (by decide) (by decide) (by decide) rfl (by decide)
    (by decide) (by decide) (neverFull_of_take 9 (by decide)) ⟨9, atFuel⟩ rfl
    ⟨9, atFuelDropped⟩).mpr ?_ after (by decide) (by decide)
    (neverFull_of_take 9 (by decide))
  intro _ index search _
  have bucket : ((run config .modulo (.ofHash hash) before state).run 9).map
      (fun reached => (reached.2.table.keys.get .modulo (.ofHash hash) (.own 7),
        reached.2.dynVals 0)) = some (some 0, ⟨600, 5⟩) := by
    decide
  rw [atFuel] at bucket
  obtain ⟨isIndex, isValue⟩ := Prod.mk.inj (Option.some.inj bucket)
  obtain rfl := Option.some.inj (search.symm.trans isIndex)
  have level : refill config.burst config.rate 5 ⟨600, 5⟩ = 600 := by decide
  rw [isValue]
  intro later _ _ young
  dsimp only [dropped] at young ⊢
  rw [level]
  exact ⟨fun _ => rfl, fun old => absurd young (not_le.mpr old)⟩

/-- A packet that is dropped rounds down the tokens: with one byte per second, a
packet after 0.6 seconds is dropped, and then one of a single byte after 1.2
seconds is dropped as well, although it is forwarded without the first. -/
theorem policer_drop_costs_a_token :
    let config : Config := ⟨1, 0, 1, 10, 2⟩
    let hash : ℕ → ℕ := id
    let memory : Map.Arrays (KeyRef ℕ) := ⟨fun _ => 1, fun _ => .own 0,
      fun _ => 0, fun _ => 1, fun _ => 0⟩
    let chainMemory : DoubleChain := ⟨fun _ => ⟨0, 0⟩, fun _ => 0⟩
    let dynVals : ℤ → DynamicValue := fun _ => ⟨0, 0⟩
    let state : State := ⟨⟨dchainAllocate chainMemory 2,
      ⟨⟨Map.mapImplInit memory 2, 2, 0⟩, fun _ => 0, []⟩⟩, dynVals⟩
    let before : List Reception := [⟨0, 0, ⟨true, true, 5, 7, 6, 1, 1, 9⟩⟩]
    let dropped : Reception := ⟨600000000, 0, ⟨true, true, 5, 7, 6, 1, 1, 5⟩⟩
    let after : List Reception :=
      [⟨1200000000, 0, ⟨true, true, 5, 7, 6, 1, 1, 1⟩⟩]
    allocState .modulo memory (fun _ => 0) chainMemory dynVals 2 = some state ∧
      NeverFull config .modulo (.ofHash hash) (before ++ dropped :: after) state ∧
      (∃ final, (run config .modulo (.ofHash hash) (before ++ dropped :: after)
        state).Returns ([1] ++ 0 :: [0], final)) ∧
      ∃ final, (run config .modulo (.ofHash hash) (before ++ after) state).Returns
        ([1] ++ [1], final) := by
  intro config hash memory chainMemory dynVals state before dropped after
  have computed : ((run config .modulo (.ofHash hash) (before ++ dropped :: after)
      state).run 9).map Prod.fst = some [1, 0, 0] := by
    decide
  have computedWithout : ((run config .modulo (.ofHash hash) (before ++ after)
      state).run 9).map Prod.fst = some [1, 1] := by
    decide
  obtain ⟨⟨_, final⟩, atFuel, rfl⟩ := Option.map_eq_some_iff.mp computed
  obtain ⟨⟨_, final'⟩, atFuel', rfl⟩ := Option.map_eq_some_iff.mp computedWithout
  exact ⟨rfl, neverFull_of_take 9 (by decide), ⟨final, 9, atFuel⟩,
    final', 9, atFuel'⟩

end Vigpol
end Vigor
