import Vigor.Vigfw.Ledger

/-!
# The firewall admits exactly replies

The packets alone determine which flows are open.  A flow is recorded with a
packet from an internal device if no flow of the same identity is alive and
fewer than the maximal number of flows are alive.  It stays alive as long as no
two of its consecutive packets, in either direction, are further apart than the
expiration time.  The firewall decides about every packet as these definitions
say.
-/

namespace Vigor
namespace Vigfw

open DoubleChain

/-! ## Flows in a history -/

/-- A flow that was recorded. -/
structure Flow where
  id : FlowId
  /-- Where the packet came from that was recorded. -/
  device : ℕ
  /-- When it came. -/
  recordedAt : ℤ
  /-- When the packets of the flow came after it, in either direction. -/
  packets : List ℤ
  deriving DecidableEq, Repr

/-- No two consecutive times are further apart than the duration. -/
def NoGap
    (duration : ℤ)
    (times : List ℤ) : Prop :=
  times.IsChain fun earlier later => later - earlier ≤ duration

instance (duration : ℤ) (times : List ℤ) : Decidable (NoGap duration times) :=
  inferInstanceAs (Decidable (List.IsChain _ _))

/-- There was no gap in the flow up to now. -/
def Flow.Alive
    (config : Config)
    (now : ℤ)
    (flow : Flow) : Prop :=
  NoGap config.lifetime (flow.recordedAt :: flow.packets ++ [now])

instance (config : Config) (now : ℤ) (flow : Flow) :
    Decidable (flow.Alive config now) :=
  inferInstanceAs (Decidable (NoGap _ _))

/-- The flows that are alive. -/
def aliveFlows
    (config : Config)
    (now : ℤ)
    (flows : List Flow) : List Flow :=
  flows.filter fun flow => flow.Alive config now

/-- The packet belongs to the flow. -/
def Concerns
    (config : Config)
    (id : FlowId)
    (reception : Reception) : Prop :=
  reception.frame.Parsed ∧ flowOf config reception = id

instance (config : Config) (id : FlowId) (reception : Reception) :
    Decidable (Concerns config id reception) :=
  inferInstanceAs (Decidable (_ ∧ _))

/-- Add a packet to its flow. -/
def Flow.note
    (config : Config)
    (reception : Reception)
    (flow : Flow) : Flow :=
  if Concerns config flow.id reception then
    { flow with packets := flow.packets ++ [reception.now] }
  else flow

/-- The packet is recorded as the first of a flow. -/
def Opens
    (config : Config)
    (flows : List Flow)
    (reception : Reception) : Prop :=
  reception.frame.Parsed ∧ reception.device ≠ config.wanDevice ∧
    (∀ flow ∈ aliveFlows config reception.now flows,
      flow.id ≠ flowId reception.frame) ∧
    (aliveFlows config reception.now flows).length < config.maxFlows

instance (config : Config) (flows : List Flow) (reception : Reception) :
    Decidable (Opens config flows reception) :=
  inferInstanceAs (Decidable (_ ∧ _ ∧ _ ∧ _))

/-- A flow that has just been recorded. -/
def openedFlow (reception : Reception) : Flow where
  id := flowId reception.frame
  device := reception.device
  recordedAt := reception.now
  packets := []

/-- Recorded flows after one more packet. -/
def afterReception
    (config : Config)
    (flows : List Flow)
    (reception : Reception) : List Flow :=
  flows.map (Flow.note config reception) ++
    if Opens config flows reception then [openedFlow reception] else []

/-- All flows that were recorded in a history of packets. -/
def recordedFlows
    (config : Config)
    (history : List Reception) : List Flow :=
  history.foldl (afterReception config) []

/-- In the history a packet of the flow came from the device and was recorded,
and since then there was no gap between packets of the flow. -/
def OpenSince
    (config : Config)
    (history : List Reception)
    (now : ℤ)
    (id : FlowId)
    (device : ℕ) : Prop :=
  ∃ before origin after, history = before ++ origin :: after ∧
    Opens config (recordedFlows config before) origin ∧
    flowId origin.frame = id ∧ origin.device = device ∧
    NoGap config.lifetime (origin.now ::
      (after.filter fun reception => Concerns config id reception).map
        Reception.now ++ [now])

/-- What has to happen to a packet with headers after a history. -/
def Admits
    (config : Config)
    (history : List Reception)
    (reception : Reception)
    (dstDevice : ℕ) : Prop :=
  (reception.device = config.wanDevice →
    (dstDevice ≠ reception.device ↔
      ∃ device, OpenSince config history reception.now
        (replyFlowId reception.frame) device) ∧
    ∀ device, OpenSince config history reception.now
      (replyFlowId reception.frame) device → dstDevice = device) ∧
  (reception.device ≠ config.wanDevice → dstDevice = config.wanDevice)

/-! ## Recorded flows and positions in the history -/

section Histories

variable {config : Config}

theorem recordedFlows_concat
    (history : List Reception)
    (last : Reception) :
    recordedFlows config (history ++ [last]) =
      afterReception config (recordedFlows config history) last := by
  simp [recordedFlows]

/-- What the history shows of the flow that a packet opened. -/
def flowSince
    (config : Config)
    (origin : Reception)
    (after : List Reception) : Flow where
  id := flowId origin.frame
  device := origin.device
  recordedAt := origin.now
  packets := (after.filter fun reception =>
    Concerns config (flowId origin.frame) reception).map Reception.now

theorem note_flowSince
    (origin : Reception)
    (after : List Reception)
    (last : Reception) :
    (flowSince config origin after).note config last =
      flowSince config origin (after ++ [last]) := by
  rw [Flow.note]
  simp only [flowSince, List.filter_append, List.map_append, List.filter_singleton]
  split_ifs <;> simp_all

/-- The recorded flows are those that some packet of the history opened. -/
theorem mem_recordedFlows_iff
    (history : List Reception)
    (flow : Flow) :
    flow ∈ recordedFlows config history ↔
      ∃ before origin after, history = before ++ origin :: after ∧
        Opens config (recordedFlows config before) origin ∧
        flowSince config origin after = flow := by
  induction history using List.reverseRecOn generalizing flow with
  | nil =>
      constructor
      · intro member
        cases member
      · rintro ⟨before, origin, after, split, _⟩
        exact absurd split.symm (by simp)
  | append_singleton history last ih =>
      rw [recordedFlows_concat, afterReception, List.mem_append]
      constructor
      · rintro (noted | opened)
        · obtain ⟨earlier, member, rfl⟩ := List.mem_map.mp noted
          obtain ⟨before, origin, after, rfl, opens, rfl⟩ :=
            (ih earlier).mp member
          exact ⟨before, origin, after ++ [last], by simp, opens,
            (note_flowSince origin after last).symm⟩
        · split_ifs at opened with opens
          · rw [List.mem_singleton.mp opened]
            exact ⟨history, last, [], rfl, opens, rfl⟩
          · cases opened
      · rintro ⟨before, origin, after, split, opens, rfl⟩
        rcases Transcript.split_concat split with ⟨rfl, rfl, rfl⟩ | ⟨rest, rfl, rfl⟩
        · rw [if_pos opens]
          exact .inr (List.mem_singleton.mpr rfl)
        · rw [← note_flowSince]
          exact .inl (List.mem_map_of_mem ((ih _).mpr ⟨before, origin, rest, rfl, opens, rfl⟩))

theorem openSince_iff
    (history : List Reception)
    (now : ℤ)
    (id : FlowId)
    (device : ℕ) :
    OpenSince config history now id device ↔
      ∃ flow ∈ aliveFlows config now (recordedFlows config history),
        flow.id = id ∧ flow.device = device := by
  simp only [aliveFlows, List.mem_filter, decide_eq_true_eq, mem_recordedFlows_iff]
  constructor
  · rintro ⟨before, origin, after, split, opens, rfl, rfl, noGap⟩
    exact ⟨_, ⟨⟨before, origin, after, split, opens, rfl⟩, noGap⟩, rfl, rfl⟩
  · rintro ⟨_, ⟨⟨before, origin, after, split, opens, rfl⟩, noGap⟩, rfl, rfl⟩
    exact ⟨before, origin, after, split, opens, rfl, rfl, noGap⟩

theorem device_ne_of_mem_recordedFlows
    (member : flow ∈ recordedFlows config history) :
    flow.device ≠ config.wanDevice := by
  obtain ⟨before, origin, after, _, opens, rfl⟩ :=
    (mem_recordedFlows_iff history flow).mp member
  exact opens.2.1

end Histories

/-! ## The ledger and the history -/

section Mirrors

variable {config : Config}

/-- When the last packet of the flow came. -/
def Flow.lastPacket (flow : Flow) : ℤ :=
  (flow.recordedAt :: flow.packets).getLast (List.cons_ne_nil _ _)

/-- The entry of a flow. -/
def Flow.entry (flow : Flow) : Ledger.Entry FlowId ℕ where
  key := flow.id
  data := flow.device
  time := flow.lastPacket

theorem Flow.alive_iff
    {now : ℤ}
    {flow : Flow} :
    flow.Alive config now ↔
      NoGap config.lifetime (flow.recordedAt :: flow.packets) ∧
        now - flow.lastPacket ≤ config.lifetime := by
  rw [Alive, NoGap, List.isChain_append]
  simp [NoGap, lastPacket, List.getLast?_eq_some_getLast]

/-- A flow that is alive later was alive before. -/
theorem Flow.Alive.of_le
    {flow : Flow}
    (alive : flow.Alive config later)
    (le : now ≤ later) :
    flow.Alive config now := by
  rw [alive_iff] at alive ⊢
  exact ⟨alive.1, by omega⟩

theorem Flow.alive_note_iff
    {now : ℤ}
    (le : reception.now ≤ now)
    (flow : Flow) :
    (flow.note config reception).Alive config now ↔
      flow.Alive config reception.now ∧
        now - (flow.note config reception).lastPacket ≤ config.lifetime := by
  rw [note]
  split_ifs with concerned
  · rw [alive_iff]
    simp [Alive, NoGap]
  · constructor
    · intro alive
      exact ⟨alive.of_le le, (alive_iff.mp alive).2⟩
    · rintro ⟨alive, recent⟩
      exact alive_iff.mpr ⟨(alive_iff.mp alive).1, recent⟩

/-- The ledger holds the flows that are alive, now and at any later time. -/
def Mirrors
    (config : Config)
    (now : ℤ)
    (ledger : Ledger FlowId ℕ)
    (flows : List Flow) : Prop :=
  ∀ later, now ≤ later →
    (ledger.expire (later - config.lifetime)).entries =
      (aliveFlows config later flows).map Flow.entry

namespace Mirrors

variable {ledger : Ledger FlowId ℕ} {flows : List Flow}

theorem mono
    (mirrors : Mirrors config now ledger flows)
    (le : now ≤ later) :
    Mirrors config later ledger flows :=
  fun further isLater => mirrors further (Int.le_trans le isLater)

theorem initial (now : ℤ) : Mirrors config now .empty [] :=
  fun _ _ => rfl

section

variable {now : ℤ} (mirrors : Mirrors config now ledger flows)

include mirrors

/-- The entry that the ledger finds is the one of the flow that is alive. -/
theorem entry_of_find
    {id : FlowId}
    (found : (ledger.expire (now - config.lifetime)).find id = some entry) :
    (∃ flow ∈ aliveFlows config now flows, flow.id = id) ∧
      ∀ flow ∈ aliveFlows config now flows,
        flow.id = id → flow.entry = entry := by
  have same := mirrors now (Int.le_refl now)
  obtain ⟨member, isId⟩ := Ledger.find_eq_some_iff.mp found
  rw [same] at member
  constructor
  · obtain ⟨flow, alive, rfl⟩ := List.mem_map.mp member
    exact ⟨flow, alive, isId⟩
  · intro flow alive flowId
    have also : (ledger.expire (now - config.lifetime)).find id =
        some flow.entry :=
      Ledger.find_eq_some_iff.mpr ⟨same ▸ List.mem_map_of_mem alive, flowId⟩
    exact Option.some.inj (also.symm.trans found)

theorem entry_eq
    (alive : flow ∈ aliveFlows config now flows)
    (otherAlive : other ∈ aliveFlows config now flows)
    (sameId : flow.id = other.id) :
    flow.entry = other.entry := by
  have same := mirrors now (Int.le_refl now)
  exact List.inj_on_of_nodup_map
    (ledger.expire (now - config.lifetime)).nodup
    (same ▸ List.mem_map_of_mem alive) (same ▸ List.mem_map_of_mem otherAlive)
    sameId

theorem find_eq_none_iff {id : FlowId} :
    (ledger.expire (now - config.lifetime)).find id = none ↔
      ∀ flow ∈ aliveFlows config now flows, flow.id ≠ id := by
  rw [Ledger.find_eq_none_iff, mirrors now (Int.le_refl now)]
  simp [Flow.entry]

theorem size_eq :
    (ledger.expire (now - config.lifetime)).size =
      (aliveFlows config now flows).length := by
  rw [Ledger.size, mirrors now (Int.le_refl now), List.length_map]

end

section

variable {reception : Reception} (mirrors : Mirrors config reception.now ledger flows)

include mirrors

section

variable (parsed : reception.frame.Parsed)

include parsed

theorem expire_overwrite
    (device : ℕ)
    (agrees : ∀ flow ∈ aliveFlows config reception.now flows,
      flow.id = flowOf config reception → flow.device = device)
    (le : reception.now ≤ later) :
    ((ledger.expire (reception.now - config.lifetime)).entries.map
        (Ledger.overwrite (flowOf config reception) device
          reception.now)).filter
            (fun entry => later - config.lifetime ≤ entry.time) =
      (aliveFlows config later (flows.map (Flow.note config reception))).map
        Flow.entry := by
  have entry_note : (aliveFlows config reception.now flows).map
      (Ledger.overwrite (flowOf config reception) device reception.now ∘ Flow.entry) =
      (aliveFlows config reception.now flows).map (Flow.entry ∘ Flow.note config reception) := by
    refine List.map_congr_left fun flow alive => ?_
    by_cases concerned : flow.id = flowOf config reception
    · have sameDevice := agrees flow alive concerned
      simp [Ledger.overwrite, Flow.note, Concerns, Flow.entry, Flow.lastPacket,
        parsed, concerned, sameDevice]
    · simp [Ledger.overwrite, Flow.note, Concerns, Flow.entry, concerned, Ne.symm concerned]
  rw [mirrors reception.now (Int.le_refl _), List.map_map,
    entry_note, List.filter_map, aliveFlows, aliveFlows, List.filter_filter,
    List.filter_map, List.map_map]
  refine congrArg (List.map _) (List.filter_congr fun flow _ => ?_)
  rw [Function.comp_apply, Function.comp_apply, Function.comp_apply, ← Bool.decide_and]
  refine decide_eq_decide.mpr ((and_comm.trans ?_).trans (Flow.alive_note_iff le flow).symm)
  refine and_congr_right fun _ => ?_
  change later - config.lifetime ≤ (flow.note config reception).lastPacket ↔ _
  omega

theorem put_of_find
    {entry : Ledger.Entry FlowId ℕ}
    (found : (ledger.expire (reception.now - config.lifetime)).find
      (flowOf config reception) = some entry) :
    Mirrors config reception.now
      ((ledger.expire (reception.now - config.lifetime)).put
        (flowOf config reception) entry.data reception.now)
      (flows.map (Flow.note config reception)) := by
  intro later le
  rw [Ledger.entries_expire, Ledger.entries_put_of_present (by simp [found])]
  refine mirrors.expire_overwrite parsed entry.data (fun flow alive isId => ?_) le
  rw [← (mirrors.entry_of_find found).2 flow alive isId]
  rfl

theorem expire_of_find_none
    (absent : (ledger.expire (reception.now - config.lifetime)).find
      (flowOf config reception) = none) :
    Mirrors config reception.now
      (ledger.expire (reception.now - config.lifetime))
      (flows.map (Flow.note config reception)) := by
  intro later le
  have nobody := mirrors.find_eq_none_iff.mp absent
  rw [← mirrors.expire_overwrite parsed reception.device
    (fun flow alive isId => absurd isId (nobody flow alive)) le,
    Ledger.map_overwrite_of_absent absent, Ledger.entries_expire]

theorem put_of_find_none
    (outbound : reception.device ≠ config.wanDevice)
    (absent : (ledger.expire (reception.now - config.lifetime)).find
      (flowOf config reception) = none) :
    Mirrors config reception.now
      ((ledger.expire (reception.now - config.lifetime)).put
        (flowOf config reception) reception.device reception.now)
      (flows.map (Flow.note config reception) ++ [openedFlow reception]) := by
  have rest := mirrors.expire_of_find_none parsed absent
  have sameFlow : flowOf config reception = flowId reception.frame := if_neg outbound
  have opened : (openedFlow reception).entry =
      ⟨flowOf config reception, reception.device, reception.now⟩ := by
    rw [sameFlow]
    rfl
  intro later le
  rw [Ledger.entries_expire, Ledger.entries_put_of_absent absent,
    List.filter_append,
    aliveFlows, List.filter_append, List.map_append]
  congr 1
  · exact rest later le
  · have fresh : decide ((openedFlow reception).Alive config later) =
        decide (later - config.lifetime ≤ (openedFlow reception).entry.time) := by
      refine decide_eq_decide.mpr ?_
      rw [Flow.alive_iff]
      simp [openedFlow, NoGap, Flow.entry, Flow.lastPacket]
      omega
    rw [← opened, List.filter_singleton, List.filter_singleton, fresh]
    cases decide (later - config.lifetime ≤ (openedFlow reception).entry.time)
    · rfl
    · rfl

end

theorem ledgerStep :
    Mirrors config reception.now (ledgerStep config reception ledger).2
      (afterReception config flows reception) := by
  rw [Vigfw.ledgerStep, afterReception]
  by_cases parsed : reception.frame.Parsed
  · have notUnparsed := not_not.mpr parsed
    cases found : (ledger.expire (reception.now - config.lifetime)).find
        (flowOf config reception) with
    | some entry =>
        obtain ⟨flow, alive, isId⟩ := (mirrors.entry_of_find found).1
        have notOpened : ¬Opens config flows reception := by
          rintro ⟨_, outbound, nobody, _⟩
          rw [flowOf, if_neg outbound] at isId
          exact nobody flow alive isId
        simp only [if_neg notUnparsed, if_neg notOpened, List.append_nil,
          Ledger.touch, Ledger.ensure, found, Option.elim_some]
        split_ifs <;> exact mirrors.put_of_find parsed found
    | none =>
        have nobody := mirrors.find_eq_none_iff.mp found
        have unchanged := mirrors.expire_of_find_none parsed found
        simp only [if_neg notUnparsed, Ledger.touch, Ledger.ensure, found,
          Option.elim_none, mirrors.size_eq]
        by_cases inbound : reception.device = config.wanDevice
        · have notOpened : ¬Opens config flows reception :=
            fun opens => opens.2.1 inbound
          rw [if_pos inbound, if_neg notOpened, List.append_nil]
          exact unchanged
        · rw [if_neg inbound]
          by_cases room : (aliveFlows config reception.now flows).length < config.maxFlows
          · rw [flowOf, if_neg inbound] at nobody
            rw [if_pos room, if_pos ⟨parsed, inbound, nobody, room⟩]
            exact mirrors.put_of_find_none parsed inbound found
          · rw [if_neg room, if_neg fun opens => room opens.2.2.2, List.append_nil]
            exact unchanged
  · have unnoted : flows.map (Flow.note config reception) = flows := by
      refine (List.map_congr_left fun flow _ => ?_).trans (List.map_id flows)
      exact if_neg fun concerned => parsed concerned.1
    rw [if_pos parsed, if_neg fun opens => parsed opens.1, unnoted, List.append_nil]
    intro later le
    rw [Ledger.expire_expire (by omega)]
    exact mirrors later le

end

end Mirrors

/-! ## Runs -/

/-- Where a packet goes when the given flows were recorded before. -/
def reply
    (config : Config)
    (flows : List Flow)
    (reception : Reception) : ℕ :=
  if ¬reception.frame.Parsed then reception.device
  else if reception.device = config.wanDevice then
    ((aliveFlows config reception.now flows).find? fun flow =>
      flow.id = replyFlowId reception.frame).elim reception.device Flow.device
  else config.wanDevice

/-- The firewall as a function of the history. -/
def historyStep
    (config : Config)
    (reception : Reception)
    (flows : List Flow) :
    ℕ × List Flow :=
  (reply config flows reception, afterReception config flows reception)

/-- The step on the ledger answers as the history demands. -/
theorem Mirrors.reply_eq (mirrors : Mirrors config reception.now ledger flows) :
    (Vigfw.ledgerStep config reception ledger).1 =
      reply config flows reception := by
  rw [Vigfw.ledgerStep, reply, flowOf]
  split_ifs with parsed inbound
  · cases search : (aliveFlows config reception.now flows).find? fun flow =>
        flow.id = replyFlowId reception.frame with
    | none =>
        have absent := mirrors.find_eq_none_iff.mpr fun flow alive =>
          by simpa using List.find?_eq_none.mp search flow alive
        rw [absent]
        rfl
    | some flow =>
        have alive := List.mem_of_find?_eq_some search
        have isId : flow.id = replyFlowId reception.frame := by
          simpa using List.find?_some search
        cases found : (ledger.expire (reception.now - config.lifetime)).find
            (replyFlowId reception.frame) with
        | none => exact absurd isId (mirrors.find_eq_none_iff.mp found flow alive)
        | some entry =>
            rw [← (mirrors.entry_of_find found).2 flow alive isId]
            rfl
  · rfl
  · rfl

theorem exists_mirrors
    (ordered : history.Pairwise fun earlier later => earlier.now ≤ later.now)
    (isLater : ∀ reception ∈ history, reception.now ≤ now) :
    ∃ ledger, Mirrors config now ledger (recordedFlows config history) := by
  induction history using List.reverseRecOn generalizing now with
  | nil => exact ⟨_, .initial now⟩
  | append_singleton history last ih =>
      rw [List.pairwise_append] at ordered
      obtain ⟨ledger, mirrors⟩ := ih ordered.1
        fun reception member => ordered.2.2 reception member last (by simp)
      rw [recordedFlows_concat]
      exact ⟨_, mirrors.ledgerStep.mono (isLater last (by simp))⟩

theorem admits_reply
    (ordered : (history ++ [reception]).Pairwise fun earlier later =>
      earlier.now ≤ later.now)
    (parsed : reception.frame.Parsed) :
    Admits config history reception
      (reply config (recordedFlows config history) reception) := by
  rw [List.pairwise_append] at ordered
  obtain ⟨ledger, mirrors⟩ := exists_mirrors ordered.1
    fun earlier member => ordered.2.2 earlier member reception (by simp)
  simp only [Admits, openSince_iff]
  refine ⟨fun inbound => ?_, fun outbound => ?_⟩
  · rw [reply, if_neg (not_not.mpr parsed), if_pos inbound]
    cases search : (aliveFlows config reception.now
        (recordedFlows config history)).find? fun flow =>
          flow.id = replyFlowId reception.frame with
    | none =>
        have nobody : ∀ flow ∈ aliveFlows config reception.now
            (recordedFlows config history), flow.id ≠ replyFlowId reception.frame :=
          fun flow alive => by simpa using List.find?_eq_none.mp search flow alive
        refine ⟨iff_of_false (not_not.mpr rfl) ?_, ?_⟩
        · rintro ⟨_, flow, alive, isId, _⟩
          exact nobody flow alive isId
        · rintro _ ⟨flow, alive, isId, _⟩
          exact absurd isId (nobody flow alive)
    | some flow =>
        have alive := List.mem_of_find?_eq_some search
        have isId : flow.id = replyFlowId reception.frame := by
          simpa using List.find?_some search
        have inside := device_ne_of_mem_recordedFlows (List.mem_of_mem_filter alive)
        refine ⟨iff_of_true (inbound ▸ inside) ⟨_, flow, alive, isId, rfl⟩, ?_⟩
        rintro _ ⟨other, otherAlive, otherId, rfl⟩
        exact congrArg Ledger.Entry.data
          (mirrors.entry_eq alive otherAlive (isId.trans otherId.symm))
  · rw [reply, if_neg (not_not.mpr parsed), if_neg outbound]

end Mirrors

theorem replies_eq
    (ordered : receptions.Pairwise fun earlier later =>
      earlier.now ≤ later.now) :
    (Transcript.run (ledgerStep config) receptions .empty).1 =
      (Transcript.run (historyStep config) receptions []).1 := by
  have permitted : Transcript.Permitted (fun _ _ => True) (ledgerStep config)
      receptions .empty := Transcript.permitted_of_forall (fun _ _ _ => trivial) _
  exact (Transcript.timed_run_refines Reception.now (Mirrors config)
    (fun le mirrors => mirrors.mono le)
    (fun _ _ _ mirrors _ => ⟨mirrors.reply_eq, mirrors.ledgerStep⟩) ordered
    (fun reception _ => .initial reception.now) permitted).1

/-- In every run with nondecreasing times: a packet from the WAN device is
forwarded exactly if a packet of the flow that it replies to was recorded and
there was no gap since then, and it goes to the device of the recorded packet; a
packet from another device goes to the WAN device. -/
theorem firewall_admits_exactly_replies
    (config : Config)
    (build : Map.Build)
    (hash : FlowId → ℕ)
    (mapMemory : Map.Arrays (KeyRef FlowId))
    (vector : ℤ → FlowId)
    (chainMemory : DoubleChain)
    (intDevices : ℤ → ℕ)
    {state : State}
    (positive : 0 < config.maxFlows)
    (bounded : config.maxFlows < 2 ^ 31)
    (allocated : allocState build mapMemory vector chainMemory intDevices
      config.maxFlows = some state)
    (receptions : List Reception)
    (ordered : receptions.Pairwise fun earlier later =>
      earlier.now ≤ later.now) :
    ∃ dstDevices final,
      (run config build (.ofHash hash) receptions state).Returns
        (dstDevices, final) ∧
      dstDevices.length = receptions.length ∧
      ∀ before reception dstDevice after,
        receptions.zip dstDevices = before ++ (reception, dstDevice) :: after →
          reception.frame.Parsed →
            Admits config (before.map Prod.fst) reception dstDevice := by
  obtain ⟨table, built, rfl⟩ := Option.map_eq_some_iff.mp allocated
  have fresh : ∀ now, State.Keeps config build hash now
      { table := table, intDevices := intDevices } .empty :=
    fun now => FlowTable.Keeps.allocate positive bounded built intDevices now
  obtain ⟨final, returns⟩ := run_returns fresh ordered
  rw [replies_eq ordered] at returns
  refine ⟨_, final, returns, Transcript.length_run _ _ _, ?_⟩
  intro before reception dstDevice after split parsed
  have history := Transcript.calls_of_zip_run split
  rw [← history, ← List.singleton_append, ← List.append_assoc,
    List.pairwise_append] at ordered
  rw [Transcript.reply_of_zip_run split, Transcript.run_state]
  exact admits_reply ordered.1 parsed

/-- A packet from inside, the reply to it, and a packet from outside to another
port: the reply goes back to the device of the first packet, and the other
packet is dropped. -/
theorem firewall_admits_exactly_replies_example :
    let config : Config := ⟨1, 1000, 2⟩
    let hash : FlowId → ℕ := FlowId.srcIp
    let memory : Map.Arrays (KeyRef FlowId) := ⟨fun _ => 1,
      fun _ => .own ⟨0, 0, 0, 0, 0⟩, fun _ => 0, fun _ => 1, fun _ => 0⟩
    let vector : ℤ → FlowId := fun _ => ⟨0, 0, 0, 0, 0⟩
    let chainMemory : DoubleChain := ⟨fun _ => ⟨0, 0⟩, fun _ => 0⟩
    let state : State := ⟨⟨dchainAllocate chainMemory 2,
      ⟨⟨Map.mapImplInit memory 2, 2, 0⟩, vector, []⟩⟩, fun _ => 0⟩
    let receptions : List Reception :=
      [⟨0, 3, ⟨true, true, 10, 20, 6, 1000, 80, 60⟩⟩,
        ⟨5, 1, ⟨true, true, 20, 10, 6, 80, 1000, 60⟩⟩,
        ⟨6, 1, ⟨true, true, 20, 10, 6, 80, 1001, 60⟩⟩]
    allocState .modulo memory vector chainMemory (fun _ => 0) 2 = some state ∧
      ∃ dstDevices final,
        (run config .modulo (.ofHash hash) receptions state).Returns
          (dstDevices, final) ∧
        dstDevices = [1, 3, 1] ∧
        ∀ before reception dstDevice after,
          receptions.zip dstDevices =
            before ++ (reception, dstDevice) :: after →
              reception.frame.Parsed →
                Admits config (before.map Prod.fst) reception dstDevice := by
  intro config hash memory vector chainMemory state receptions
  refine ⟨rfl, ?_⟩
  obtain ⟨dstDevices, final, returns, _, admits⟩ :=
    firewall_admits_exactly_replies config .modulo hash memory vector chainMemory
      (fun _ => 0) (by decide) (by decide) rfl receptions (by decide)
  have computed : ((run config .modulo (.ofHash hash) receptions state).run
      9).map Prod.fst = some [1, 3, 1] := by
    decide
  have values := returns.view_eq 9 computed
  exact ⟨dstDevices, final, returns, values, admits⟩

end Vigfw
end Vigor
