import Vigor.Vigbridge.Learning

/-!
# The decisions of the bridge

The bridge does what `nf_process` does on a ledger of devices, so that every
frame of a run goes where the static rules and the history of frames send it.
-/

namespace Vigor
namespace Vigbridge

variable
  {config : Config}
  {build : Map.Build}
  {hash : ℕ → ℕ}
  {staticHash : StaticKey → ℕ}
  {rules : List (StaticKey × ℤ)}

/-! ## Static rules -/

/-- No two rules are about the same address and input device. -/
abbrev DistinctKeys (rules : List (StaticKey × ℤ)) : Prop :=
  (rules.map Prod.fst).Nodup

theorem staticTarget_eq_some_iff (distinct : DistinctKeys rules) :
    staticTarget rules key = some target ↔ (key, target) ∈ rules := by
  constructor
  · intro found
    obtain ⟨⟨other, _⟩, isRule, rfl⟩ := Option.map_eq_some_iff.mp found
    obtain rfl : other = key := by simpa using List.find?_some isRule
    exact List.mem_of_find?_eq_some isRule
  · intro member
    cases found : rules.find? fun rule => rule.1 = key with
    | none => simpa using List.find?_eq_none.mp found _ member
    | some rule =>
        have same : rule.1 = key := by simpa using List.find?_some found
        have isRule : rule = (key, target) := List.inj_on_of_nodup_map distinct
          (List.mem_of_find?_eq_some found) member same
        rw [staticTarget, found, isRule]
        rfl

/-- The map after some of the rules were put into it. -/
theorem represents_readStaticFt
    (represents : Map.Represents build (.ofHash staticHash) capacity stMap
      dictionary)
    (distinct : DistinctKeys (rules.reverse ++ dictionary))
    (room : rules.length + dictionary.length ≤ capacity) :
    Map.Represents build (.ofHash staticHash) capacity
      (readStaticFt build (.ofHash staticHash) rules stMap)
        (rules.reverse ++ dictionary) := by
  induction rules generalizing stMap dictionary with
  | nil => exact represents
  | cons rule rules ih =>
      rw [List.reverse_cons, List.append_assoc, List.singleton_append] at distinct ⊢
      rw [List.length_cons] at room
      have missing : ¬ dictionary.Present (.ofHash staticHash) rule.1 := by
        rintro ⟨stored, member, equal⟩
        rw [DistinctKeys, List.map_append, List.map_cons, List.nodup_append,
          List.nodup_cons] at distinct
        exact distinct.2.1.1 (of_decide_eq_true equal ▸ List.mem_map_of_mem member)
      exact ih (represents.put rule.2 missing (by omega)).2 distinct
        (by rw [List.length_cons]; omega)

theorem mapGet_readStaticFt
    (allocated : Map.mapAllocate build memory statCapacity = some stMap)
    (distinct : DistinctKeys rules)
    (room : rules.length ≤ statCapacity)
    (key : StaticKey) :
    (readStaticFt build (.ofHash staticHash) rules stMap).mapGet build
      (.ofHash staticHash) key = staticTarget rules key := by
  have fresh : Map.Represents build (.ofHash staticHash) statCapacity stMap [] :=
    .allocate (by decide) (by decide) allocated
  have reversed : DistinctKeys rules.reverse := by simpa [DistinctKeys] using distinct
  have represents := represents_readStaticFt fresh
    (show DistinctKeys (rules.reverse ++ []) by rwa [List.append_nil]) (by simpa using room)
  rw [List.append_nil] at represents
  refine (represents.get key).trans (?_ : staticTarget rules.reverse key = _)
  ext target
  rw [staticTarget_eq_some_iff reversed, staticTarget_eq_some_iff distinct, List.mem_reverse]

/-! ## The state and the ledger -/

/-- The state keeps the devices of the ledger and the static rules. -/
structure State.Keeps
    (config : Config)
    (build : Map.Build)
    (hash : ℕ → ℕ)
    (staticHash : StaticKey → ℕ)
    (rules : List (StaticKey × ℤ))
    (now : ℤ)
    (state : State)
    (ledger : Ledger ℕ ℕ) : Prop where
  table : FlowTable.Keeps build hash config.dynCapacity now state.table state.dynVals ledger
  static : ∀ key, state.stMap.mapGet build (.ofHash staticHash) key = staticTarget rules key

namespace State.Keeps

variable {now : ℤ} {state : State} {ledger : Ledger ℕ ℕ}

theorem nfInit
    {dynVals : ℤ → ℕ}
    (distinct : DistinctKeys rules)
    (positive : 0 < config.dynCapacity)
    (bounded : config.dynCapacity < 2 ^ 31)
    (initialised :
      nfInit config build (.ofHash staticHash) mapMemory vector chainMemory
        dynVals staticMemory rules = some state)
    (now : ℤ) :
    state.Keeps config build hash staticHash rules now .empty := by
  obtain ⟨table, tableAllocated, rest⟩ := Option.bind_eq_some_iff.mp initialised
  obtain ⟨stMap, staticAllocated, last⟩ := Option.bind_eq_some_iff.mp rest
  dsimp only at last
  split at last
  · cases last
  · rename_i room
    obtain rfl := Option.some.inj last
    exact ⟨FlowTable.Keeps.allocate positive bounded tableAllocated dynVals now,
      mapGet_readStaticFt staticAllocated distinct (by omega)⟩

section

variable (keeps : state.Keeps config build hash staticHash rules now ledger)

include keeps

theorem bridgeExpireEntries :
    ∃ state',
      (bridgeExpireEntries config build (.ofHash hash) now state).Returns
        state' ∧
      state'.Keeps config build hash staticHash rules now
        (ledger.expire (now - config.expiration)) := by
  obtain ⟨count, table', returns, kept⟩ :=
    keeps.table.expireItemsSingleMap (now - config.expiration)
  exact ⟨{ state with table := table' }, returns.bind (Fuelled.returns_pure _), kept, keeps.static⟩

theorem bridgePutUpdateEntry (src srcDevice : ℕ) :
    (bridgePutUpdateEntry build (.ofHash hash) src srcDevice now state).Keeps
      config build hash staticHash rules now
      (ledger.ensure config.dynCapacity src srcDevice now) := by
  rw [Vigbridge.bridgePutUpdateEntry, Ledger.ensure]
  rcases keeps.table.lookup_cases src with
    ⟨absent, looked⟩ | ⟨index, time, table', found, looked, kept⟩
  · rw [looked, absent]
    dsimp only
    rcases keeps.table.allocateFlow_cases absent with
      ⟨full, allocated⟩ | ⟨index, table', room, allocated, kept⟩
    · rw [allocated, if_neg (Nat.not_lt.mpr full)]
      exact keeps
    · rw [allocated, if_pos room]
      exact ⟨kept srcDevice, keeps.static⟩
  · rw [looked, found]
    have same := kept (state.dynVals index)
    rw [Function.update_eq_self] at same
    exact ⟨same, keeps.static⟩

theorem bridgeGetDevice (dst srcDevice : ℕ) :
    bridgeGetDevice build (.ofHash hash) (.ofHash staticHash) dst
      srcDevice state = ledgerDevice rules dst srcDevice ledger := by
  rw [Vigbridge.bridgeGetDevice, ledgerDevice, keeps.static]
  cases staticTarget rules ⟨dst, srcDevice⟩ with
  | some target => rfl
  | none =>
      dsimp only
      cases found : state.table.keys.get build (.ofHash hash) (.own dst) with
      | none => rw [keeps.table.find_eq_none found]; rfl
      | some index =>
          obtain ⟨time, isEntry⟩ := keeps.table.find_of_get found
          rw [isEntry]
          rfl

end

theorem nfProcess
    (keeps : state.Keeps config build hash staticHash rules reception.now
      ledger) :
    ∃ state',
      (nfProcess config build (.ofHash hash) (.ofHash staticHash) reception
        state).Returns ((ledgerStep config rules reception ledger).1, state') ∧
      state'.Keeps config build hash staticHash rules reception.now
        (ledgerStep config rules reception ledger).2 := by
  obtain ⟨expired, returns, keepsExpired⟩ := keeps.bridgeExpireEntries
  have updated := keepsExpired.bridgePutUpdateEntry reception.sAddr reception.device
  refine ⟨_, returns.bind ?_, updated⟩
  simp only [updated.bridgeGetDevice, ledgerStep]
  split_ifs <;> exact Fuelled.returns_pure _

end State.Keeps

/-! ## Decisions -/

/-- Static rules filter frames or name a device. -/
def ProperTargets (rules : List (StaticKey × ℤ)) : Prop :=
  ∀ rule ∈ rules, rule.2 = -2 ∨ 0 ≤ rule.2

theorem ProperTargets.staticTarget
    (proper : ProperTargets rules)
    (found : staticTarget rules key = some target) :
    target = -2 ∨ 0 ≤ target := by
  obtain ⟨rule, isRule, rfl⟩ := Option.map_eq_some_iff.mp found
  exact proper rule (List.mem_of_find?_eq_some isRule)

/-- With the history in the ledger, the decision is the one of the history. -/
theorem decision_ledgerStep
    (proper : ProperTargets rules)
    (remembers : Remembers config before ledger)
    (past : ∀ earlier ∈ before, earlier.now ≤ frame.now)
    (room : ¬ Active config.expiration frame.now before frame.sAddr →
      {source | Active config.expiration frame.now before source}.ncard <
        config.dynCapacity) :
    Decision config rules before frame
      (ledgerStep config rules frame ledger).1 := by
  have learned := remembers.find_ledgerStep rules past room frame.dAddr
  have pastNow : ∀ earlier ∈ before ++ [frame], earlier.now ≤ frame.now := by
    intro earlier member
    rcases List.mem_append.mp member with inBefore | isFrame
    · exact past earlier inBefore
    · rw [List.mem_singleton.mp isFrame]
  constructor
  · intro isFilter
    have decided : ledgerDevice rules frame.dAddr frame.device
        (ledgerStep config rules frame ledger).2 = -2 := by
      rw [ledgerDevice, isFilter]
    rw [ledgerStep_eq decided, if_neg (by decide), if_pos rfl]
  · intro target isTarget notFilter
    have isDevice := (proper.staticTarget isTarget).resolve_left notFilter
    have decided : ledgerDevice rules frame.dAddr frame.device
        (ledgerStep config rules frame ledger).2 = target := by
      rw [ledgerDevice, isTarget]
    rw [ledgerStep_eq decided, if_neg (by omega), if_neg notFilter]
  · intro noRule period current first isFirst
    obtain ⟨start, last, isStart, _, found⟩ := current.known_eq pastNow
    obtain rfl := Option.some.inj (isStart.symm.trans isFirst)
    have decided : ledgerDevice rules frame.dAddr frame.device
        (ledgerStep config rules frame ledger).2 = (start.device : ℤ) := by
      rw [ledgerDevice, noRule, learned, found]
      rfl
    rw [ledgerStep_eq decided, if_neg (by omega), if_neg (by omega)]
  · intro noRule inactive
    have unknown : known config.expiration frame.now (before ++ [frame]) frame.dAddr = none := by
      by_contra found
      exact inactive ((active_iff pastNow).mpr found)
    have decided : ledgerDevice rules frame.dAddr frame.device
        (ledgerStep config rules frame ledger).2 = -1 := by
      rw [ledgerDevice, noRule, learned, unknown]
      rfl
    rw [ledgerStep_eq decided, if_pos rfl]

/-- In every run in which the dynamic table is not full when a new source
appears, every frame is filtered, sent to its static target, sent to the device
of the first frame of the current activity period of its destination, or
flooded, as the static rules and the history say. -/
theorem bridge_follows_learning_history
    (config : Config)
    (build : Map.Build)
    (hash : ℕ → ℕ)
    (staticHash : StaticKey → ℕ)
    (mapMemory : Map.Arrays (KeyRef ℕ))
    (vector : ℤ → ℕ)
    (chainMemory : DoubleChain)
    (dynVals : ℤ → ℕ)
    (staticMemory : Map.Arrays StaticKey)
    {rules : List (StaticKey × ℤ)}
    (distinct : DistinctKeys rules)
    (proper : ProperTargets rules)
    {state : State}
    (positive : 0 < config.dynCapacity)
    (bounded : config.dynCapacity < 2 ^ 31)
    (initialised :
      nfInit config build (.ofHash staticHash) mapMemory vector chainMemory
        dynVals staticMemory rules = some state)
    {receptions : List Reception}
    (ordered : receptions.Pairwise fun earlier later => earlier.now ≤ later.now)
    (room : NeverFull config receptions) :
    ∃ dstDevices final,
      (run config build (.ofHash hash) (.ofHash staticHash) receptions
        state).Returns (dstDevices, final) ∧
      dstDevices.length = receptions.length ∧
      ∀ before frame dstDevice after,
        receptions.zip dstDevices = before ++ (frame, dstDevice) :: after →
          Decision config rules (before.map Prod.fst) frame dstDevice := by
  have fresh : ∀ now, state.Keeps config build hash staticHash rules now .empty :=
    fun now => State.Keeps.nfInit distinct positive bounded initialised now
  have permitted : Transcript.Permitted (fun _ _ => True) (ledgerStep config rules)
      receptions .empty := Transcript.permitted_of_forall (fun _ _ _ => trivial) _
  obtain ⟨final, returns, _⟩ := Fuelled.transcript_returns Reception.now
    (State.Keeps config build hash staticHash rules)
    (fun le keeps => ⟨keeps.table.mono le, keeps.static⟩)
    (fun _ _ _ keeps _ => keeps.nfProcess) ordered
    (fun reception _ => fresh reception.now) ⟨0, fresh 0⟩ permitted
  refine ⟨_, final, returns, Transcript.length_run _ _ _, ?_⟩
  intro before frame dstDevice after split
  have history := Transcript.calls_of_zip_run split
  rw [Transcript.reply_of_zip_run split]
  rw [← history, List.pairwise_append] at ordered
  refine decision_ledgerStep proper (remembers_run rules ordered.1 ?_) ?_ ?_
  · intro earlier other later shape
    exact room earlier other (later ++ frame :: after.map Prod.fst)
      (by rw [← history, shape]; simp)
  · exact fun earlier member => ordered.2.2 earlier member frame List.mem_cons_self
  · exact room _ frame _ history.symm

/-- An address is learned behind device 2, and a frame for it arrives on device
1. -/
theorem bridge_follows_learning_history_example :
    let config : Config := ⟨10, 2⟩
    let rules : List (StaticKey × ℤ) := [(⟨7, 1⟩, -2), (⟨8, 1⟩, 3)]
    let memory : Map.Arrays (KeyRef ℕ) :=
      ⟨fun _ => 1, fun _ => .own 0, fun _ => 0, fun _ => 1, fun _ => 0⟩
    let staticMemory : Map.Arrays StaticKey :=
      ⟨fun _ => 1, fun _ => ⟨0, 0⟩, fun _ => 0, fun _ => 1, fun _ => 0⟩
    let receptions : List Reception := [⟨0, 2, 5, 6⟩, ⟨4, 1, 6, 5⟩]
    ∃ state,
      nfInit config .modulo (.ofHash StaticKey.addr) memory (fun _ => 0)
        ⟨fun _ => ⟨0, 0⟩, fun _ => 0⟩ (fun _ => 0) staticMemory rules = some state ∧
      ∃ dstDevices final,
        (run config .modulo (.ofHash id) (.ofHash StaticKey.addr) receptions state).Returns
          (dstDevices, final) ∧
        dstDevices.length = 2 ∧
        ∀ before frame dstDevice after,
          receptions.zip dstDevices = before ++ (frame, dstDevice) :: after →
            Decision config rules (before.map Prod.fst) frame dstDevice := by
  intro config rules memory staticMemory receptions
  obtain ⟨state, initialised⟩ : ∃ state,
      nfInit config .modulo (.ofHash StaticKey.addr) memory (fun _ => 0)
        ⟨fun _ => ⟨0, 0⟩, fun _ => 0⟩ (fun _ => 0) staticMemory rules = some state := ⟨_, rfl⟩
  exact ⟨state, initialised, bridge_follows_learning_history config .modulo id
    StaticKey.addr memory (fun _ => 0) ⟨fun _ => ⟨0, 0⟩, fun _ => 0⟩ (fun _ => 0) staticMemory
    (by decide) (by simp [ProperTargets, rules]) (by decide) (by decide) initialised
    (by decide) (neverFull_of_length_le (by decide))⟩

end Vigbridge
end Vigor
