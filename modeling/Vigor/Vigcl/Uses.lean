import Vigor.Sketch.Uses
import Vigor.Vigcl.Denials

/-!
# Buckets that the connection limiter uses

The limiter only uses allocated buckets of the sketch if every packet from the
WAN starts a new flow, and no other row of the sketch finds a hash value of its
client.  A packet of a known flow refreshes all rows, although only the first
row ever has entries.
-/

namespace Vigor
namespace Vigcl

open DoubleChain

/-! ## Recording uses -/

section Recording

variable (config : Config) (build : Map.Build) (flowOps : Map.KeyOps Flow)
  (hashOps : Map.KeyOps ℕ) (rowHash : Fin sketchHashes → Client → ℕ)

/-- The uses of `limit_clients`. -/
def limitClientsUses
    (flow : Flow)
    (now : ℤ)
    (state : State) : List Sketch.Use :=
  let sketch := state.sketch.sketchComputeHashes rowHash flow.client
  let rows := List.finRange sketchHashes
  match state.flows.lookup build flowOps flow now with
  | (some _, _) => Sketch.refreshUses build hashOps now rows sketch
  | (none, flows) =>
      match flows.allocateFlow build flowOps flow now with
      | (none, _) => []
      | (some _, _) =>
          let outcome := sketch.sketchFetch build hashOps
          Sketch.fetchUses build hashOps rows (sketch, none) ++
            if outcome.1 then [] else Sketch.touchUses build hashOps now rows outcome.2

/-- The uses for a packet that has the headers, after the expiry. -/
def parsedUses
    (reception : Reception)
    (state : State) : List Sketch.Use :=
  if reception.device = config.lanDevice then []
  else if reception.device = config.wanDevice then
    limitClientsUses build flowOps hashOps rowHash (flowOf reception.frame) reception.now state
  else []

/-- `nf_process` with the uses instead of the device. -/
def nfProcessUses
    (reception : Reception)
    (state : State) : Fuelled (List Sketch.Use × State) :=
  if reception.frame.Parsed then do
    let state ← expireEntries config build flowOps hashOps reception.now state
    pure (parsedUses config build flowOps hashOps rowHash reception state,
      (processParsed config build flowOps hashOps rowHash reception state).2)
  else pure ([], state)

/-- The uses for packets one after the other. -/
def runUses
    (receptions : List Reception)
    (state : State) : Fuelled (List (List Sketch.Use) × State) :=
  Fuelled.transcript (nfProcessUses config build flowOps hashOps rowHash) receptions state

/-- A packet that is limited belongs to a new flow, and if that flow finds room,
then no other row of the sketch finds a hash value of its client. -/
def AvoidsOtherRows
    (flowHash : Flow → ℕ)
    (maxFlows : ℕ)
    (reception : Reception)
    (state : State) : Prop :=
  reception.device ≠ config.lanDevice → reception.device = config.wanDevice →
    ¬HasFlow build flowHash (flowOf reception.frame) state ∧
      ((∃ index : ℤ, (0 ≤ index ∧ index < maxFlows) ∧
          dchainIsIndexAllocated state.flows.chain index = false) →
        ∀ row ≠ 0, (state.sketch.sketchComputeHashes rowHash
          (flowOf reception.frame).client).getClient build hashOps row = none)

/-- All packets of a run do so, each in the state after the expiry. -/
def AlwaysAvoidsOtherRows
    (flowHash : Flow → ℕ)
    (maxFlows : ℕ) :
    List Reception → State → Prop :=
  Fuelled.Along
    (fun reception state => reception.frame.Parsed → ∀ expired,
      (expireEntries config build (.ofHash flowHash) hashOps reception.now state).Returns
        expired →
      AvoidsOtherRows config build hashOps rowHash flowHash maxFlows reception expired)
    (nfProcess config build (.ofHash flowHash) hashOps rowHash)

end Recording

variable {config : Config} {build : Map.Build} {flowHash : Flow → ℕ} {hash : ℕ → ℕ}
  {rowHash : Fin sketchHashes → Client → ℕ} {maxFlows sketchCapacity : ℕ} {now : ℤ}
  {state : State}

/-! ## One packet -/

/-- A known flow makes the sketch refresh all rows, and a flow that finds no
room does not make it do anything. -/
theorem Sound.limitClientsUses_valid_iff
    (sound : Sound build flowHash hash maxFlows sketchCapacity now state)
    (rowHash : Fin sketchHashes → Client → ℕ)
    (flow : Flow) :
    (∀ use ∈ limitClientsUses build (.ofHash flowHash) (.ofHash hash) rowHash
          flow now state,
        use.Valid sketchCapacity) ↔
      ¬HasFlow build flowHash flow state ∧
        ((∃ index : ℤ, (0 ≤ index ∧ index < maxFlows) ∧
            dchainIsIndexAllocated state.flows.chain index = false) →
          ∀ row ≠ 0, (state.sketch.sketchComputeHashes rowHash
            flow.client).getClient build (.ofHash hash) row = none) := by
  have possible := sound.flow_cases flow
  obtain ⟨_, buckets, clients, first⟩ := sound
  have searched := first.sketchComputeHashes rowHash flow.client
  rw [limitClientsUses]
  rcases possible with ⟨known, index, flows, looked, _⟩ |
    ⟨new, looked, ⟨full, fails⟩ | ⟨hasRoom, index, flows, allocates, _⟩⟩
  · rw [looked]
    obtain ⟨use, member, notValid⟩ :=
      searched.exists_not_valid_refresh (List.mem_finRange 1) (by decide)
    exact iff_of_false (fun valid => notValid (valid use member)) fun avoids => avoids.1 known
  · rw [looked]
    dsimp only
    rw [fails]
    exact iff_of_true (List.forall_mem_nil _) ⟨new, fun room => absurd room full⟩
  · obtain ⟨_, fetched, _⟩ := searched.sketchFetch
    rw [looked]
    dsimp only
    rw [allocates]
    dsimp only
    rw [List.forall_mem_append,
      searched.fetchUses_valid_iff (List.finRange sketchHashes) none, and_iff_right new,
      imp_iff_right hasRoom]
    simp only [List.mem_finRange, true_imp_iff]
    refine and_iff_left_of_imp fun _ => ?_
    split
    · exact List.forall_mem_nil _
    · exact fetched.touchUses_valid

variable {reception : Reception}

theorem Sound.parsedUses_valid_iff
    (config : Config)
    (rowHash : Fin sketchHashes → Client → ℕ)
    (sound : Sound build flowHash hash maxFlows sketchCapacity reception.now
      state) :
    (∀ use ∈ parsedUses config build (.ofHash flowHash) (.ofHash hash) rowHash
          reception state,
        use.Valid sketchCapacity) ↔
      AvoidsOtherRows config build (.ofHash hash) rowHash flowHash maxFlows
        reception state := by
  unfold parsedUses AvoidsOtherRows
  split_ifs with isLan isWan
  · simp [isLan]
  · rw [imp_iff_right isLan, imp_iff_right isWan]
    exact sound.limitClientsUses_valid_iff rowHash (flowOf reception.frame)
  · simp [isWan]

/-! ## Runs -/

theorem nfProcessUses_returns
    (returns : (nfProcess config build flowOps hashOps rowHash reception
      state).Returns (device, following)) :
    ∃ uses,
      (nfProcessUses config build flowOps hashOps rowHash reception
        state).Returns (uses, following) := by
  rw [nfProcess_eq] at returns
  unfold nfProcessUses
  split_ifs at returns ⊢ with parsed
  · obtain ⟨expired, expires, processed⟩ := Fuelled.returns_bind_iff.mp returns
    have same : following = _ := congrArg Prod.snd (processed.unique (Fuelled.returns_pure _))
    rw [same]
    exact ⟨_, expires.bind (Fuelled.returns_pure _)⟩
  · obtain ⟨_, rfl⟩ := Prod.mk.inj (returns.unique (Fuelled.returns_pure _))
    exact ⟨_, Fuelled.returns_pure _⟩

theorem nfProcessUses_valid_iff
    (rowHash : Fin sketchHashes → Client → ℕ)
    (config : Config)
    (sound : Sound build flowHash hash maxFlows sketchCapacity
      reception.now state)
    (returns : (nfProcessUses config build (.ofHash flowHash) (.ofHash hash)
      rowHash reception state).Returns (uses, following)) :
    (∀ use ∈ uses, use.Valid sketchCapacity) ↔
      (reception.frame.Parsed → ∀ expired,
        (expireEntries config build (.ofHash flowHash) (.ofHash hash)
          reception.now state).Returns expired →
        AvoidsOtherRows config build (.ofHash hash) rowHash flowHash maxFlows
          reception expired) := by
  unfold nfProcessUses at returns
  split_ifs at returns with parsed
  · obtain ⟨expired, expires, recorded⟩ := Fuelled.returns_bind_iff.mp returns
    obtain ⟨rfl, _⟩ := Prod.mk.inj (recorded.unique (Fuelled.returns_pure _))
    obtain ⟨_, alsoExpires, soundExpired, _⟩ := sound.expireEntries config reception.now
    obtain rfl := alsoExpires.unique expires
    rw [soundExpired.parsedUses_valid_iff config rowHash, imp_iff_right parsed]
    constructor
    · intro avoids other otherExpires
      rw [otherExpires.unique expires]
      exact avoids
    · intro avoids
      exact avoids _ expires
  · obtain ⟨rfl, _⟩ := Prod.mk.inj (returns.unique (Fuelled.returns_pure _))
    simp [parsed]

theorem runUses_valid_iff
    (rowHash : Fin sketchHashes → Client → ℕ)
    (config : Config)
    (ordered : receptions.Pairwise fun earlier later => earlier.now ≤ later.now)
    (sound : ∀ reception ∈ receptions,
      Sound build flowHash hash maxFlows sketchCapacity reception.now state) :
    ∃ uses devices final,
      (runUses config build (.ofHash flowHash) (.ofHash hash) rowHash receptions
        state).Returns (uses, final) ∧
      (run config build (.ofHash flowHash) (.ofHash hash) rowHash receptions
        state).Returns (devices, final) ∧
      ((∀ packetUses ∈ uses, ∀ use ∈ packetUses, use.Valid sketchCapacity) ↔
        AlwaysAvoidsOtherRows config build (.ofHash hash) rowHash flowHash
          maxFlows receptions state) := by
  induction receptions generalizing state with
  | nil =>
      exact ⟨[], [], state, Fuelled.returns_pure _, Fuelled.returns_pure _,
        iff_of_true (List.forall_mem_nil _) trivial⟩
  | cons reception receptions ih =>
      obtain ⟨notBefore, restOrdered⟩ := List.pairwise_cons.mp ordered
      have soundHere := sound reception List.mem_cons_self
      obtain ⟨device, following, processed, stillSound⟩ := soundHere.nfProcess rowHash config
      obtain ⟨first, recorded⟩ := nfProcessUses_returns processed
      obtain ⟨uses, devices, final, usesRan, ran, valid⟩ := ih restOrdered
        fun later member => stillSound.mono (notBefore later member)
      refine ⟨first :: uses, device :: devices, final,
        recorded.bind (usesRan.bind (Fuelled.returns_pure _)),
        processed.bind (ran.bind (Fuelled.returns_pure _)), ?_⟩
      rw [List.forall_mem_cons, nfProcessUses_valid_iff rowHash config soundHere recorded, valid]
      unfold AlwaysAvoidsOtherRows
      rw [Fuelled.Along]
      refine and_congr_right fun _ => ?_
      constructor
      · intro rest otherDevice other returned
        obtain ⟨_, rfl⟩ := Prod.mk.inj (returned.unique processed)
        exact rest
      · intro rest
        exact rest device following processed

/-- In every run the limiter only uses allocated indexes of the rows of its
sketch exactly if each packet that is limited belongs to a new flow and no other
row finds a hash value of its client. -/
theorem limiter_uses_allocated_buckets_iff
    (config : Config)
    (rowHash : Fin sketchHashes → Client → ℕ)
    {flowsMemory : Map.Arrays (KeyRef Flow)}
    {flowAllocatorMemory : DoubleChain}
    {sketchMemory : Sketch.Memory}
    {maxClients : ℕ}
    {fresh : State}
    (positive : 0 < maxFlows)
    (bounded : maxFlows < 2 ^ 31)
    (sketchPositive : 0 < sketchCapacity)
    (sketchBounded : sketchCapacity * sketchHashes ≤ 2 ^ 30)
    (allocated : allocState build flowsMemory flowAllocatorMemory sketchMemory
      maxFlows sketchCapacity maxClients = some fresh)
    {receptions : List Reception}
    (ordered : receptions.Pairwise fun earlier later =>
      earlier.now ≤ later.now) :
    ∃ uses devices final,
      (runUses config build (.ofHash flowHash) (.ofHash hash) rowHash receptions
        fresh).Returns (uses, final) ∧
      (run config build (.ofHash flowHash) (.ofHash hash) rowHash receptions
        fresh).Returns (devices, final) ∧
      ((∀ packetUses ∈ uses, ∀ use ∈ packetUses, use.Valid sketchCapacity) ↔
        AlwaysAvoidsOtherRows config build (.ofHash hash) rowHash flowHash
          maxFlows receptions fresh) :=
  runUses_valid_iff rowHash config ordered fun reception _ =>
    Sound.allocate positive bounded sketchPositive sketchBounded allocated reception.now

/-- Two flows of one client, which the sketch counts in its first cell. -/
theorem limiter_uses_allocated_buckets_new_flows :
    ∃ fresh, smallState = some fresh ∧
      ∃ uses final,
        (runUses secondConfig .modulo Flow.keyOps Sketch.keyOps Client.rowHash
          [clientPacket 1 1, clientPacket 2 2] fresh).Returns
            (uses, final) ∧
        (∀ packetUses ∈ uses, ∀ use ∈ packetUses, use.Valid 64) ∧
        AlwaysAvoidsOtherRows secondConfig .modulo Sketch.keyOps Client.rowHash
          Flow.flowHash 4 [clientPacket 1 1, clientPacket 2 2] fresh := by
  obtain ⟨fresh, allocated⟩ : ∃ fresh, smallState = some fresh := ⟨_, rfl⟩
  obtain ⟨uses, _, final, returns, _, iff⟩ : ∃ uses devices final,
      (runUses secondConfig .modulo Flow.keyOps Sketch.keyOps Client.rowHash
        [clientPacket 1 1, clientPacket 2 2] fresh).Returns (uses, final) ∧
      (run secondConfig .modulo Flow.keyOps Sketch.keyOps Client.rowHash
        [clientPacket 1 1, clientPacket 2 2] fresh).Returns (devices, final) ∧ _ :=
    limiter_uses_allocated_buckets_iff secondConfig Client.rowHash (by decide : 0 < 4)
      (by decide) (by decide : 0 < 64) (by decide) allocated
      (by decide : [clientPacket 1 1, clientPacket 2 2].Pairwise
        fun earlier later => earlier.now ≤ later.now)
  have valid : ∀ packetUses ∈ uses, ∀ use ∈ packetUses, use.Valid 64 := by
    have test := returns.passes
      (fun result => decide (∀ packetUses ∈ result.1, ∀ use ∈ packetUses, use.Valid 64)) 20
      (by obtain rfl := Option.some.inj allocated; decide +kernel)
    exact of_decide_eq_true test
  exact ⟨fresh, allocated, uses, final, returns, valid, iff.mp valid⟩

/-- The second packet of a flow makes the second row rejuvenate the index -1. -/
theorem refresh_uses_missing_index :
    ∃ fresh, smallState = some fresh ∧
      ∃ uses final,
        (runUses secondConfig .modulo Flow.keyOps Sketch.keyOps Client.rowHash
          [clientPacket 1 1, clientPacket 2 1] fresh).Returns
            (uses, final) ∧
        ∃ packetUses ∈ uses, ∃ use ∈ packetUses,
          use.row = 1 ∧ use.bucketIndex = -1 ∧ ¬use.Valid 64 := by
  obtain ⟨fresh, allocated⟩ : ∃ fresh, smallState = some fresh := ⟨_, rfl⟩
  have found : ∃ result,
      (runUses secondConfig .modulo Flow.keyOps Sketch.keyOps Client.rowHash
          [clientPacket 1 1, clientPacket 2 1] fresh).Returns result ∧
        decide (∃ packetUses ∈ result.1, ∃ use ∈ packetUses,
          use.row = 1 ∧ use.bucketIndex = -1 ∧ ¬use.Valid 64) = true := by
    obtain rfl := Option.some.inj allocated
    exact Fuelled.exists_returns_of_any 20 (by decide +kernel)
  obtain ⟨⟨uses, final⟩, returns, present⟩ := found
  exact ⟨fresh, allocated, uses, final, returns, of_decide_eq_true present⟩

end Vigcl
end Vigor
