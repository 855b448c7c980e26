import Vigor.FlowTable.Ledger
import Vigor.Library.TokenBucket
import Vigor.Vigpol.Impl

/-!
# The buckets of the policer

The table of the policer is a ledger of buckets.  For each destination it holds
the last state of a token bucket, as long as that is remembered.  The buckets of
different destinations have nothing to do with each other, except that a new one
needs room in the table.
-/

namespace Vigor
namespace Vigpol

open DoubleChain TokenBucket Function

/-! ## The policer on a ledger -/

section Ledgers

variable (burst rate capacity : ℕ)

/-- `policer_check_tb` on the ledger of buckets. -/
def checkLedger
    (dst size : ℕ)
    (now : ℤ)
    (ledger : Ledger ℕ DynamicValue) : Bool × Ledger ℕ DynamicValue :=
  match ledger.find dst with
  | some entry =>
      let level := refill burst rate now entry.data
      if level > size then (true, ledger.put dst ⟨level - size, now⟩ now)
      else (false, ledger.put dst ⟨level, now⟩ now)
  | none =>
      if size > burst then (false, ledger)
      else if ledger.size < capacity then
        (true, ledger.put dst ⟨burst - size, now⟩ now)
      else (false, ledger)

/-- The check leaves the ledger as it is, or it writes the entry of the
destination. -/
theorem checkLedger_cases
    (dst size : ℕ)
    (now : ℤ)
    (ledger : Ledger ℕ DynamicValue) :
    (ledger.find dst = none ∧ (burst < size ∨ capacity ≤ ledger.size) ∧
        (checkLedger burst rate capacity dst size now ledger).2 = ledger) ∨
      ∃ level,
        (ledger.find dst = none → size ≤ burst) ∧
        (checkLedger burst rate capacity dst size now ledger).2 =
          ledger.put dst ⟨level, now⟩ now := by
  rw [checkLedger]
  cases found : ledger.find dst with
  | none =>
      dsimp only
      by_cases large : size > burst
      · rw [if_pos large]
        exact .inl ⟨rfl, .inl large, rfl⟩
      rw [if_neg large]
      by_cases room : ledger.size < capacity
      · rw [if_pos room]
        exact .inr ⟨_, fun _ => Nat.le_of_not_lt large, rfl⟩
      · rw [if_neg room]
        exact .inl ⟨rfl, .inr (Nat.le_of_not_lt room), rfl⟩
  | some entry =>
      dsimp only
      split_ifs
      · exact .inr ⟨_, nofun, rfl⟩
      · exact .inr ⟨_, nofun, rfl⟩

/-- `nf_process` on the ledger of buckets. -/
def ledgerStep
    (config : Config)
    (reception : Reception)
    (ledger : Ledger ℕ DynamicValue) : ℕ × Ledger ℕ DynamicValue :=
  if reception.frame.isIpv4 = false then (reception.device, ledger)
  else
    let ledger := ledger.expire (minTime config.burst config.rate reception.now)
    if reception.device = config.lanDevice then (config.wanDevice, ledger)
    else if reception.device = config.wanDevice then
      let outcome := checkLedger config.burst config.rate config.dynCapacity
        reception.frame.dstAddr reception.frame.packetLength.toNat reception.now
        ledger
      (if outcome.1 then config.lanDevice else config.wanDevice, outcome.2)
    else (reception.device, ledger)

/-- The packet is checked against the bucket of the destination. -/
def Policed
    (config : Config)
    (dst : ℕ)
    (reception : Reception) : Prop :=
  reception.frame.isIpv4 = true ∧ reception.device ≠ config.lanDevice ∧
    reception.device = config.wanDevice ∧ reception.frame.dstAddr = dst

instance (config : Config) (dst : ℕ) (reception : Reception) :
    Decidable (Policed config dst reception) :=
  inferInstanceAs (Decidable (_ ∧ _ ∧ _ ∧ _))

theorem Policed.different (policed : Policed config dst reception) :
    config.lanDevice ≠ config.wanDevice :=
  fun same => policed.2.1 (policed.2.2.1.trans same.symm)

/-- Where a packet goes that is not checked. -/
def passedTo
    (config : Config)
    (reception : Reception) : ℕ :=
  if reception.frame.isIpv4 = true ∧ reception.device = config.lanDevice
  then config.wanDevice
  else reception.device

theorem ledgerStep_of_policed
    (policed : Policed config dst reception)
    (ledger : Ledger ℕ DynamicValue) :
    let outcome := checkLedger config.burst config.rate config.dynCapacity dst
      reception.frame.packetLength.toNat reception.now
      (ledger.expire (minTime config.burst config.rate reception.now))
    ledgerStep config reception ledger =
      (if outcome.1 then config.lanDevice else config.wanDevice, outcome.2) := by
  obtain ⟨ipv4, notLan, isWan, rfl⟩ := policed
  rw [ledgerStep, if_neg (by simp [ipv4])]
  dsimp only
  rw [if_neg notLan, if_pos isWan]

theorem ledgerStep_of_not_policed
    (notPoliced : ¬Policed config reception.frame.dstAddr reception)
    (ledger : Ledger ℕ DynamicValue) :
    ledgerStep config reception ledger =
      (passedTo config reception,
        if reception.frame.isIpv4 = false then ledger
        else ledger.expire
          (minTime config.burst config.rate reception.now)) := by
  rw [ledgerStep, passedTo]
  by_cases notIpv4 : reception.frame.isIpv4 = false
  · simp [notIpv4]
  have ipv4 : reception.frame.isIpv4 = true := by simpa using notIpv4
  by_cases outgoing : reception.device = config.lanDevice
  · simp [ipv4, outgoing]
  · have notIncoming : reception.device ≠ config.wanDevice := fun incoming =>
      notPoliced ⟨ipv4, outgoing, incoming, rfl⟩
    simp [ipv4, outgoing, notIncoming]

/-- The state keeps the buckets of the ledger. -/
def State.Keeps
    (capacity : ℕ)
    (build : Map.Build)
    (hash : ℕ → ℕ)
    (now : ℤ)
    (state : State)
    (ledger : Ledger ℕ DynamicValue) : Prop :=
  FlowTable.Keeps build hash capacity now state.table state.dynVals ledger

namespace State.Keeps

variable
  {burst rate capacity : ℕ}
  {build : Map.Build}
  {hash : ℕ → ℕ}
  {now : ℤ}
  {state : State}
  {ledger : Ledger ℕ DynamicValue}

theorem policerExpireEntries
    (keeps : state.Keeps capacity build hash now ledger)
    (burst rate : ℕ) :
    ∃ state', (policerExpireEntries burst rate build (.ofHash hash) now
        state).Returns state' ∧
      state'.Keeps capacity build hash now
        (ledger.expire (minTime burst rate now)) := by
  obtain ⟨count, table', returns, kept⟩ :=
    FlowTable.Keeps.expireItemsSingleMap keeps (minTime burst rate now)
  exact ⟨{ state with table := table' }, returns.bind (Fuelled.returns_pure _), kept⟩

theorem policerCheckTb
    (keeps : state.Keeps capacity build hash now ledger)
    (burst rate dst size : ℕ) :
    (policerCheckTb burst rate build (.ofHash hash) dst size now state).1 =
        (checkLedger burst rate capacity dst size now ledger).1 ∧
      (policerCheckTb burst rate build (.ofHash hash) dst size now
        state).2.Keeps capacity build hash now
          (checkLedger burst rate capacity dst size now ledger).2 := by
  rw [Vigpol.policerCheckTb, checkLedger]
  rcases FlowTable.Keeps.lookup_cases keeps dst with
    ⟨absent, looked⟩ | ⟨index, time, table', found, looked, kept⟩
  · rw [looked, absent]
    by_cases large : size > burst
    · simp only [if_pos large]
      exact ⟨trivial, keeps⟩
    · simp only [if_neg large]
      rcases FlowTable.Keeps.allocateFlow_cases keeps absent with
        ⟨full, allocated⟩ | ⟨index, table', room, allocated, kept⟩
      · simp only [allocated, if_neg (Nat.not_lt.mpr full)]
        exact ⟨trivial, keeps⟩
      · simp only [allocated, if_pos room]
        exact ⟨trivial, kept _⟩
  · rw [looked, found]
    by_cases passes : refill burst rate now (state.dynVals index) > size
    · simp only [if_pos passes]
      exact ⟨trivial, kept _⟩
    · simp only [if_neg passes]
      exact ⟨trivial, kept _⟩

theorem nfProcess
    (keeps : state.Keeps config.dynCapacity build hash reception.now ledger) :
    ∃ state', (nfProcess config build (.ofHash hash) reception state).Returns
        ((ledgerStep config reception ledger).1, state') ∧
      state'.Keeps config.dynCapacity build hash reception.now
        (ledgerStep config reception ledger).2 := by
  rw [Vigpol.nfProcess, ledgerStep]
  split_ifs with notIpv4 outgoing incoming
  · exact ⟨state, Fuelled.returns_pure _, keeps⟩
  all_goals
    obtain ⟨expired, expires, kept⟩ :=
      keeps.policerExpireEntries config.burst config.rate
    rw [police]
  · refine ⟨expired, expires.bind ?_, kept⟩
    rw [if_pos outgoing]
    exact Fuelled.returns_pure _
  · have checked := kept.policerCheckTb config.burst config.rate
      reception.frame.dstAddr reception.frame.packetLength.toNat
    refine ⟨_, expires.bind ?_, checked.2⟩
    dsimp only
    rw [if_neg outgoing, if_pos incoming, ← checked.1]
    generalize Vigpol.policerCheckTb _ _ _ _ _ _ _ _ = outcome
    obtain ⟨passes, state'⟩ := outcome
    cases passes <;> exact Fuelled.returns_pure _
  · refine ⟨expired, expires.bind ?_, kept⟩
    rw [if_neg outgoing, if_neg incoming]
    exact Fuelled.returns_pure _

end State.Keeps

theorem run_returns
    {hash : ℕ → ℕ}
    (fresh : ∀ now, state.Keeps config.dynCapacity build hash now .empty)
    (ordered : receptions.Pairwise fun earlier later =>
      earlier.now ≤ later.now) :
    ∃ final, (run config build (.ofHash hash) receptions state).Returns
        ((Transcript.run (ledgerStep config) receptions .empty).1, final) ∧
      ∃ last, final.Keeps config.dynCapacity build hash last
        (Transcript.run (ledgerStep config) receptions .empty).2 := by
  have permitted : Transcript.Permitted (fun _ _ => True) (ledgerStep config)
      receptions .empty := Transcript.permitted_of_forall (fun _ _ _ => trivial) _
  refine Fuelled.transcript_returns Reception.now
    (fun now state ledger =>
      State.Keeps config.dynCapacity build hash now state ledger)
    (fun le keeps => FlowTable.Keeps.mono keeps le) ?_ ordered
    (fun reception _ => fresh reception.now) ⟨0, fresh 0⟩ permitted
  intro reception state ledger keeps _
  exact keeps.nfProcess

end Ledgers

/-! ## Buckets of one destination -/

/-- The token bucket that the code computes with, if it is remembered for the
given time. -/
def Config.limitsFor
    (config : Config)
    (lifetime : ℤ) : Limits where
  rate := config.rate
  burst := config.burst
  unit := secondsMultiplier
  wrap := 2 ^ 64
  fullAfter := fullTime config.burst config.rate
  lifetime := lifetime

/-- The token bucket that is remembered for the time of expiry. -/
def Config.limits (config : Config) : Limits :=
  config.limitsFor (expTime config.burst config.rate)

section Limits

variable {config : Config} {lifetime : ℤ}

@[simp] theorem limits_rate : (config.limitsFor lifetime).rate = config.rate := rfl

@[simp] theorem limits_burst : (config.limitsFor lifetime).burst = config.burst := rfl

@[simp] theorem limits_unit :
    (config.limitsFor lifetime).unit = secondsMultiplier :=
  rfl

@[simp] theorem limits_wrap : (config.limitsFor lifetime).wrap = 2 ^ 64 := rfl

@[simp] theorem limits_lifetime : (config.limitsFor lifetime).lifetime = lifetime := rfl

/-- The refill of the code is the refill of the token bucket. -/
theorem refill_eq
    (lifetime time : ℤ)
    (value : DynamicValue) :
    refill config.burst config.rate time value =
      refilled (config.limitsFor lifetime) value.bucketSize
        (time - value.bucketTime).toNat := by
  unfold refill refilled Config.limitsFor
  generalize (time - value.bucketTime).toNat = gap
  dsimp only
  by_cases short : gap < fullTime config.burst config.rate
  · rw [if_pos short, if_pos short]
    generalize (value.bucketSize + _) % 2 ^ 64 = level
    split_ifs <;> omega
  · rw [if_neg short, if_neg short]

theorem minTime_of_nonneg
    (lasting : 0 ≤ expTime burst rate)
    (time : ℤ) :
    minTime burst rate time = time - expTime burst rate :=
  if_pos lasting

theorem expTime_nonneg (bounded : config.burst * secondsMultiplier < 2 ^ 63) :
    0 ≤ expTime config.burst config.rate := by
  have less : secondsMultiplier * (config.burst / config.rate) ≤
      config.burst * secondsMultiplier := by
    rw [Nat.mul_comm]
    exact Nat.mul_le_mul_right _ (Nat.div_le_self _ _)
  unfold expTime
  rw [← Int.natCast_ediv, ← Int.natCast_mul]
  generalize secondsMultiplier * (config.burst / config.rate) = lifetime at less ⊢
  rw [Int.bmod_eq_of_le_mul_two (by omega) (by omega)]
  exact Int.natCast_nonneg _

end Limits

/-- What a packet asks of a bucket. -/
def offerOf
    (reception : Reception)
    (room : Bool) : Offer where
  size := reception.frame.packetLength.toNat
  now := reception.now
  room := room

/-- The code keeps the time of the last use of a bucket twice, and it is not in
the future. -/
structure Timed (now : ℤ) (ledger : Ledger ℕ DynamicValue) : Prop where
  timed : ∀ entry ∈ ledger.entries, entry.data.bucketTime = entry.time
  notAfter : ∀ entry ∈ ledger.entries, entry.time ≤ now

namespace Timed

variable {now : ℤ} {ledger : Ledger ℕ DynamicValue}

theorem initial (now : ℤ) : Timed now .empty where
  timed _ member := absurd member List.not_mem_nil
  notAfter _ member := absurd member List.not_mem_nil

theorem mono
    (timed : Timed now ledger)
    (le : now ≤ later) :
    Timed later ledger :=
  { timed with notAfter := fun entry member => (timed.notAfter entry member).trans le }

theorem expire
    (timed : Timed now ledger)
    (limit : ℤ) :
    Timed now (ledger.expire limit) where
  timed entry member := timed.timed entry (List.mem_of_mem_filter member)
  notAfter entry member := timed.notAfter entry (List.mem_of_mem_filter member)

theorem put
    (timed : Timed now ledger)
    (level dst : ℕ) :
    Timed now (ledger.put dst ⟨level, now⟩ now) where
  timed entry member := by
    rcases Ledger.mem_put_iff.mp member with rfl | ⟨_, old⟩
    · rfl
    · exact timed.timed entry old
  notAfter entry member := by
    rcases Ledger.mem_put_iff.mp member with rfl | ⟨_, old⟩
    · exact Int.le_refl _
    · exact timed.notAfter entry old

theorem ledgerStep
    (timed : Timed reception.now ledger)
    (config : Config) :
    Timed reception.now (ledgerStep config reception ledger).2 := by
  by_cases policed : Policed config reception.frame.dstAddr reception
  · rw [ledgerStep_of_policed policed]
    rcases checkLedger_cases config.burst config.rate config.dynCapacity
      reception.frame.dstAddr reception.frame.packetLength.toNat reception.now
      (ledger.expire (minTime config.burst config.rate reception.now)) with
      ⟨_, _, same⟩ | ⟨level, _, written⟩
    · dsimp only
      rw [same]
      exact timed.expire _
    · dsimp only
      rw [written]
      exact (timed.expire _).put level _
  · rw [ledgerStep_of_not_policed policed]
    dsimp only
    split_ifs
    · exact timed
    · exact timed.expire _

end Timed

/-- The ledger holds the last buckets of the destinations, except for those that
are forgotten. -/
structure Follows
    (lifetime now : ℤ)
    (ledger : Ledger ℕ DynamicValue)
    (buckets : ℕ → Option Bucket) : Prop extends Timed now ledger where
  present : ∀ dst entry, ledger.find dst = some entry →
    buckets dst = some ⟨entry.data.bucketSize, entry.time⟩
  absent : ∀ dst, ledger.find dst = none → ∀ bucket ∈ buckets dst,
    lifetime < now - bucket.time

namespace Follows

variable
  {config : Config}
  {lifetime now : ℤ}
  {ledger : Ledger ℕ DynamicValue}
  {buckets : ℕ → Option Bucket}

theorem initial (lifetime now : ℤ) :
    Follows lifetime now .empty fun _ => none where
  toTimed := .initial now
  present _ _ found := absurd found (by simp)
  absent _ _ _ member := absurd member (Option.not_mem_none _)

section

variable (follows : Follows lifetime now ledger buckets)

include follows

theorem mono
    (le : now ≤ later) :
    Follows lifetime later ledger buckets :=
  { follows with
    toTimed := follows.toTimed.mono le
    absent := fun dst missing bucket member =>
      (follows.absent dst missing bucket member).trans_le (by omega) }

theorem expire :
    Follows lifetime now (ledger.expire (now - lifetime)) buckets where
  toTimed := follows.toTimed.expire _
  present dst entry found := by
    rw [Ledger.find_expire] at found
    exact follows.present dst entry (Option.filter_eq_some_iff.mp found).1
  absent dst missing bucket member := by
    rw [Ledger.find_expire, Option.filter_eq_none_iff] at missing
    cases found : ledger.find dst with
    | none => exact follows.absent dst found bucket member
    | some entry =>
        have old := missing entry found
        rw [follows.present dst entry found] at member
        obtain rfl := Option.mem_some_iff.mp member
        simp only [decide_eq_true_eq, not_le] at old
        dsimp only
        omega

theorem remembered_eq
    (config : Config)
    (dst : ℕ) :
    remembered (config.limitsFor lifetime) now (buckets dst) =
      ((ledger.expire (now - lifetime)).find dst).map fun entry =>
        ⟨entry.data.bucketSize, entry.time⟩ := by
  cases found : (ledger.expire (now - lifetime)).find dst with
  | none => exact remembered_eq_none_iff.mpr (follows.expire.absent dst found)
  | some entry =>
      refine remembered_eq_some_iff.mpr ⟨follows.expire.present dst entry found, ?_⟩
      rw [Ledger.find_expire, Option.filter_eq_some_iff, decide_eq_true_iff] at found
      rw [limits_lifetime]
      dsimp only
      omega

theorem put (level dst : ℕ) :
    Follows lifetime now (ledger.put dst ⟨level, now⟩ now)
      (update buckets dst (some ⟨level, now⟩)) where
  toTimed := follows.toTimed.put level dst
  present other entry found := by
    by_cases same : other = dst
    · subst same
      rw [Ledger.find_put_self] at found
      obtain rfl := Option.some.inj found
      exact update_self _ _ _
    · rw [Ledger.find_put_of_ne same] at found
      rw [update_of_ne same]
      exact follows.present other entry found
  absent other missing := by
    by_cases same : other = dst
    · subst same
      rw [Ledger.find_put_self] at missing
      cases missing
    · rw [Ledger.find_put_of_ne same] at missing
      rw [update_of_ne same]
      exact follows.absent other missing

theorem checkLedger
    (capacity dst size : ℕ) :
    let expired := ledger.expire (now - lifetime)
    let outcome := Vigpol.checkLedger config.burst config.rate capacity dst size now expired
    let accepted := accept (config.limitsFor lifetime)
      ⟨size, now, expired.size < capacity⟩ (buckets dst)
    outcome.1 = accepted.1 ∧
      Follows lifetime now outcome.2 (update buckets dst accepted.2) := by
  intro expired outcome accepted
  have kept : Follows lifetime now expired buckets := follows.expire
  have same := follows.remembered_eq config dst
  simp only [outcome, accepted, Vigpol.checkLedger, accept, same]
  cases found : expired.find dst with
  | none =>
      have unchanged := update_eq_self dst buckets
      simp only [expired] at found
      simp only [Option.map_none]
      by_cases large : size > config.burst
      · rw [if_pos large, if_neg fun both => absurd both.1 (Nat.not_le.mpr large), unchanged]
        exact ⟨rfl, kept⟩
      · by_cases room : expired.size < capacity
        · rw [if_neg large, if_pos room, if_pos ⟨Nat.le_of_not_lt large, decide_eq_true room⟩]
          exact ⟨rfl, kept.put _ dst⟩
        · rw [if_neg large, if_neg room,
            if_neg fun both => room (of_decide_eq_true both.2), unchanged]
          exact ⟨rfl, kept⟩
  | some entry =>
      have member := (Ledger.find_eq_some_iff.mp found).1
      have level : refill config.burst config.rate now entry.data =
          levelAt (config.limitsFor lifetime) now ⟨entry.data.bucketSize, entry.time⟩ := by
        rw [refill_eq lifetime, kept.timed entry member, levelAt]
      simp only [expired] at found
      simp only [Option.map_some, level]
      split_ifs
      · exact ⟨rfl, kept.put _ dst⟩
      · exact ⟨rfl, kept.put _ dst⟩

end

end Follows

/-- There is room for a new bucket when the packet comes. -/
def Config.hasRoom
    (config : Config)
    (reception : Reception)
    (ledger : Ledger ℕ DynamicValue) : Bool :=
  (ledger.expire (minTime config.burst config.rate reception.now)).size <
    config.dynCapacity

/-- The buckets after a packet. -/
def nextBuckets
    (config : Config)
    (lifetime : ℤ)
    (reception : Reception)
    (room : Bool)
    (buckets : ℕ → Option Bucket)
    (dst : ℕ) : Option Bucket :=
  if Policed config dst reception then
    (accept (config.limitsFor lifetime) (offerOf reception room) (buckets dst)).2
  else buckets dst

namespace Follows

variable
  {config : Config}
  {lifetime : ℤ}
  {reception : Reception}
  {ledger : Ledger ℕ DynamicValue}
  {buckets : ℕ → Option Bucket}

section

variable (steady : minTime config.burst config.rate reception.now = reception.now - lifetime)
  (follows : Follows lifetime reception.now ledger buckets)

include steady follows

/-- A packet that is checked is an offer to the bucket of its destination. -/
theorem ledgerStep_of_policed
    (policed : Policed config dst reception) :
    let accepted := accept (config.limitsFor lifetime)
      (offerOf reception (config.hasRoom reception ledger)) (buckets dst)
    (ledgerStep config reception ledger).1 =
        (if accepted.1 then config.lanDevice else config.wanDevice) ∧
      Follows lifetime reception.now (ledgerStep config reception ledger).2
        (update buckets dst accepted.2) := by
  obtain ⟨decision, kept⟩ := follows.checkLedger config.dynCapacity dst
    reception.frame.packetLength.toNat
  rw [Vigpol.ledgerStep_of_policed policed, Config.hasRoom, steady]
  refine ⟨?_, kept⟩
  dsimp only
  rw [decision]
  rfl

theorem ledgerStep :
    Follows lifetime reception.now (ledgerStep config reception ledger).2
      (nextBuckets config lifetime reception (config.hasRoom reception ledger)
        buckets) := by
  by_cases policed : Policed config reception.frame.dstAddr reception
  · have kept := (follows.ledgerStep_of_policed steady policed).2
    have same : nextBuckets config lifetime reception (config.hasRoom reception ledger)
        buckets = update buckets reception.frame.dstAddr
          (accept (config.limitsFor lifetime) (offerOf reception
            (config.hasRoom reception ledger))
            (buckets reception.frame.dstAddr)).2 := by
      funext dst
      by_cases isDst : dst = reception.frame.dstAddr
      · subst isDst
        rw [nextBuckets, if_pos policed, update_self]
      · rw [nextBuckets, if_neg fun other => isDst other.2.2.2.symm, update_of_ne isDst]
    rw [same]
    exact kept
  · have same : nextBuckets config lifetime reception (config.hasRoom reception ledger)
        buckets = buckets := by
      funext dst
      refine if_neg fun other => policed ?_
      obtain ⟨ipv4, notLan, isWan, _⟩ := other
      exact ⟨ipv4, notLan, isWan, rfl⟩
    rw [same, ledgerStep_of_not_policed policed, steady]
    dsimp only
    split_ifs
    · exact follows
    · exact follows.expire

end

end Follows

end Vigpol
end Vigor
