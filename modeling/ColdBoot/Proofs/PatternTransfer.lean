import ColdBoot.Proofs.ClearTiling
import ColdBoot.Proofs.IdleBoard

/-! # Carrying the colour pattern

The clear colour goes from the staging page into the signal processor's memory, and from there into
a framebuffer, by transfers that end in their own time. Their invariants say of every byte that it
is right, or that a transfer which will make it so is outstanding, or, in a clear, that its chunk is
still to come; and of every outstanding byte that it is one of these.

* **`Board.Loading`** – the pattern is being loaded;
* **`Board.Clearing`** – a framebuffer is being cleared, with some chunks still to come;
* **`Board.ensures_loadPattern`**, **`Board.ensures_clearChunks`** – both come to their end. -/

namespace ColdBoot

namespace Board

open Hardware MemoryPath

variable {κ : Type} {path : MemoryPath κ} {claim : Board κ → Prop}

/-! ### Starting a transfer -/

/-- The board with one more transfer started. -/
def push (s : Board κ) (transfer : Transfer) : Board κ :=
  { s with engine := { s.engine with
      queue := s.engine.queue ++ [transfer]
      started := s.engine.started ++ [transfer] } }

theorem pending_push (s : Board κ) (transfer : Transfer) (direction : Direction)
    (byte : PendingByte) : (s.push transfer).engine.Pending direction byte ↔
      s.engine.Pending direction byte ∨
        (transfer.direction = direction ∧ byte ∈ transfer.bytes) := by
  simp only [TransferEngine.Pending, push, List.mem_append, List.mem_singleton]
  constructor
  · rintro ⟨other, member | rfl, h⟩
    · exact .inl ⟨other, member, h⟩
    · exact .inr h
  · rintro (⟨other, member, h⟩ | h)
    · exact ⟨other, .inl member, h⟩
    · exact ⟨transfer, .inr rfl, h⟩

/-- What is asserted of a board may not depend on the engine's address registers. -/
def Blind (assertion : Board κ → Prop) : Prop := ∀ ⦃s : Board κ⦄ (memAddr dramAddr : UInt32),
  assertion s → assertion { s with engine := { s.engine with memAddr, dramAddr } }

/-- A start of one row that finds room puts its transfer into the queue. -/
theorem ensures_start {before after : Board κ → Prop} {mem : UInt32} {dram : PhysAddr}
    {bytes : UInt64} {descriptor : SpDescriptor} {direction : Direction}
    (built : Sp.linear mem dram bytes = .ok descriptor) (short : bytes.toNat ≤ 2 ^ 16)
    (sound : (hardware path).Sound (.always claim) before)
    (sound' : (hardware path).Sound (.always claim) after) (blind : Blind before)
    (room : ∀ ⦃s⦄, before s → s.outstanding < 2)
    (behind : ∀ ⦃s⦄, before s →
      after (s.push (.linear direction mem.toNat dram.word.toNat bytes.toNat))) :
    (hardware path).Ensures (.always claim) before (Sp.start descriptor direction)
      fun _ => after := by
  let withMem (s : Board κ) : Prop := before s ∧ s.engine.memAddr = descriptor.mem
  let withBoth (s : Board κ) : Prop := withMem s ∧ s.engine.dramAddr = descriptor.dram.word
  have soundMem : (hardware path).Sound (.always claim) withMem := by
    refine ⟨sound.stable.and fun s t moved h => ?_, fun s h => sound.state h.1⟩
    cases moved with
    | engine moved => exact moved.memAddr.trans h
    | memory moved => exact h
  have soundBoth : (hardware path).Sound (.always claim) withBoth := by
    refine ⟨soundMem.stable.and fun s t moved h => ?_, fun s h => soundMem.state h.1⟩
    cases moved with
    | engine moved => exact moved.dramAddr.trans h
    | memory moved => exact h
  refine Sp.ensures_start withMem sound soundBoth ?_ ?_ ?_
  · refine .perform sound (fun _ => soundMem) (fun s h => sound.state h) ?_
    rintro s answer t h rfl
    exact ⟨blind _ s.engine.dramAddr h, rfl⟩
  · refine .perform soundMem (fun _ => soundBoth) (fun s h => soundMem.state h) ?_
    rintro s answer t ⟨h, mem⟩ rfl
    exact ⟨⟨blind s.engine.memAddr _ h, mem⟩, rfl⟩
  · intro word packed
    refine .perform soundBoth (fun _ => sound') (fun s h => soundBoth.state h) ?_
    rintro s answer t ⟨⟨h, mem⟩, dram⟩ responded
    have transfer := Transfer.ofWords_of_linear built short packed direction
    rw [← mem, ← dram] at transfer
    have pushed : t = s.push
        (.ofWords direction s.engine.memAddr s.engine.dramAddr word) := by
      have eq : t = s.write (Sp.lengthRegister direction) word := responded
      have origin : Sp.lengthRegister direction ≠ ViRegister.origin := by
        cases direction <;> decide
      have free : s.engine.queue.length < 2 := room h
      rw [eq, write, s.engine.write_lengthRegister, if_neg origin, TransferEngine.start,
        if_pos free]
      rfl
    rw [pushed, transfer]
    exact behind h

/-! ### Loading the pattern -/

/-- The pattern is being loaded from the page at `place`. -/
structure Loading (place : Nat) (color : Color) (fact : Memory κ → Prop)
    (known : List Transfer → UInt32 → Prop) (s : Board κ) : Prop where
  fact : fact s.memory
  pending : ∀ direction byte, s.engine.Pending direction byte →
    direction = .fromRdram ∧ ∃ k < pageSize.toNat, byte = ⟨k, place + k⟩
  loaded : ∀ k < pageSize.toNat,
    s.engine.dmem k = color.byte k ∨ s.engine.Pending .fromRdram ⟨k, place + k⟩
  known : known s.engine.started s.origin

section Loading

variable {place : Nat} {color : Color} {fact : Memory κ → Prop}
  {known : List Transfer → UInt32 → Prop}

/-- With its transfer started on an idle engine, all of the pattern is outstanding. -/
theorem Idle.push_loading {ready : Bytes → List Transfer → UInt32 → Prop}
    (start : ∀ dmem started origin, ready dmem started origin →
      known (started ++ [.linear .fromRdram 0 place pageSize.toNat]) origin)
    {s : Board κ} (h : Idle fact ready s) :
    Loading place color fact known (s.push (.linear .fromRdram 0 place pageSize.toNat)) := by
  have pending {direction : Direction} {byte : PendingByte} := pending_push s
    (.linear .fromRdram 0 place pageSize.toNat) direction byte
  refine ⟨h.fact, fun direction byte left => ?_, fun k lt => .inr ?_, start _ _ _ h.known⟩
  · rcases pending.1 left with old | ⟨rfl, member⟩
    · exact absurd old (TransferEngine.not_pending h.queue)
    · obtain ⟨k, lt, rfl⟩ := Transfer.mem_linear.1 member
      exact ⟨rfl, k, lt, by rw [Nat.zero_add]⟩
  · apply pending.2
    refine .inr ⟨rfl, Transfer.mem_linear.2 ⟨k, lt, ?_⟩⟩
    rw [Nat.zero_add]

variable (lawful : path.Lawful) (robust : path.Robust fact)
  (source : ∀ memory, fact memory →
    ∀ k < pageSize.toNat, memory.rdram (place + k) = color.byte k)

include lawful robust source

/-- Every byte that is copied comes from the page, where the colour is. -/
theorem loading_stable : (hardware path).Stable (Loading place color fact known) := by
  intro s t moved h
  cases moved with
  | memory moved =>
    obtain ⟨gentle, absent⟩ := lawful.moves moved
    exact ⟨robust.gentle gentle absent h.fact, h.pending, h.loaded, h.known⟩
  | @engine engine rdram moved =>
    have started := moved.started
    obtain ⟨fewer, copied⟩ := moved.copies
    have pending := fun direction byte left => h.pending direction byte (fewer direction byte left)
    rcases copied with ⟨byte, out, rfl, dmem, rest⟩ | ⟨byte, out, -⟩ | ⟨dmem, rfl, rest⟩
    · -- the byte that is copied is right now, and the others are as they were
      obtain ⟨-, l, lt, rfl⟩ := h.pending _ _ out
      refine ⟨h.fact, pending, fun k ltk => ?_, by rw [started]; exact h.known⟩
      show engine.dmem k = _ ∨ engine.Pending _ _
      rw [dmem]
      by_cases same : k = l
      · subst same
        rw [Function.update_self]
        exact .inl (source _ h.fact k lt)
      · rw [Function.update_of_ne same]
        refine (h.loaded k ltk).imp_right fun still => ?_
        refine (rest _ _ still).resolve_right fun ⟨_, eq⟩ => same ?_
        exact congrArg PendingByte.mem eq
    · exact nomatch (h.pending _ _ out).1
    · refine ⟨h.fact, pending, fun k lt => ?_, by rw [started]; exact h.known⟩
      show engine.dmem k = _ ∨ engine.Pending _ _
      rw [dmem]
      exact (h.loaded k lt).imp_right (rest _ _)

variable (holds : ∀ ⦃s⦄, Loading place color fact known s → claim s)

include holds

theorem loading_sound : (hardware path).Sound (.always claim) (Loading place color fact known) :=
  ⟨loading_stable lawful robust source, holds⟩

/-- Loading the pattern, from an idle engine to an idle engine. -/
theorem ensures_loadPattern {staging : UInt32} {descriptor : SpDescriptor}
    {ready : Bytes → List Transfer → UInt32 → Prop} (eq : placeOf staging = place)
    (built : Sp.linear patternPlace (.ofAddress staging) pageSize = .ok descriptor)
    (holdsIdle : ∀ ⦃s⦄, Idle fact ready s → claim s)
    (start : ∀ dmem started origin, ready dmem started origin →
      known (started ++ [.linear .fromRdram 0 place pageSize.toNat]) origin) :
    (hardware path).Ensures (.always claim) (Idle fact ready)
      (do
        Sp.start descriptor .fromRdram
        let _ ← Sp.engine.waitIdle)
      fun _ => Idle fact fun dmem started origin =>
        known started origin ∧ ∀ k < pageSize.toNat, dmem k = color.byte k := by
  subst eq
  have sound := loading_sound lawful robust source holds
  refine .via (fun _ => Loading (placeOf staging) color fact known)
    (ensures_start built (by decide) (idle_sound lawful robust holdsIdle) sound ?_ ?_ ?_)
    fun _ => ?_
  · exact fun s memAddr dramAddr h => ⟨h.queue, h.fact, h.known⟩
  · intro s h
    rw [outstanding, h.queue]
    decide
  · exact fun s h => h.push_loading start
  · refine .bind (ensures_waitIdle sound) fun _ => .done (sound_and_idle sound) ?_
    -- nothing is outstanding any more, so every byte is loaded
    rintro s ⟨h, idle⟩
    refine ⟨idle, h.fact, h.known, fun k lt => ?_⟩
    exact (h.loaded k lt).resolve_right (TransferEngine.not_pending idle)

end Loading

/-! ### Clearing a framebuffer -/

/-- The framebuffer at `base` is being cleared, and the chunks of `rest` are still to come. -/
structure Clearing (path : MemoryPath κ) (base : Nat) (color : Color) (region : Nat → Prop)
    (before : Memory κ) (known : List Transfer → UInt32 → Prop) (rest : List ClearChunk)
    (s : Board κ) : Prop where
  elsewhere : path.Elsewhere region before s.memory
  absent : ∀ k < Framebuffer.byteSize.toNat, path.Absent s.memory (base + k)
  pattern : ∀ k < pageSize.toNat, s.engine.dmem k = color.byte k
  /-- Only bytes of the framebuffer are outstanding, each with a byte of its colour. -/
  pending : ∀ direction byte, s.engine.Pending direction byte → direction = .toRdram ∧
    ∃ k < Framebuffer.byteSize.toNat, byte.dram = base + k ∧ byte.mem < pageSize.toNat ∧
      byte.mem % 2 = k % 2
  cleared : ∀ k < Framebuffer.byteSize.toNat, s.memory.rdram (base + k) = color.byte k ∨
    (∃ m, s.engine.Pending .toRdram ⟨m, base + k⟩) ∨
    ∃ chunk ∈ rest, chunk.offset.toNat ≤ k ∧ k < chunk.offset.toNat + chunk.len.toNat
  known : known s.engine.started s.origin

section Clearing

variable {base : Nat} {color : Color} {region : Nat → Prop} {before : Memory κ}
  {known : List Transfer → UInt32 → Prop}

/-- The transfer of a chunk. -/
def chunkTransfer (base : Nat) (chunk : ClearChunk) : Transfer :=
  .linear .toRdram 0 (base + chunk.offset.toNat) chunk.len.toNat

/-- With the transfer of a chunk started, the bytes of the chunk are outstanding. -/
theorem Clearing.push {chunk : ClearChunk} {rest : List ClearChunk} {s : Board κ}
    (member : chunk ∈ Video.clearChunks)
    (h : Clearing path base color region before
      (fun started origin => known (started ++ (chunk :: rest).map (chunkTransfer base)) origin)
      (chunk :: rest) s) :
    Clearing path base color region before
      (fun started origin => known (started ++ rest.map (chunkTransfer base)) origin) rest
      (s.push (chunkTransfer base chunk)) := by
  obtain ⟨aligned, nonempty, short, inside⟩ := Video.chunk_inside member
  have pending {direction : Direction} {byte : PendingByte} := pending_push s
    (chunkTransfer base chunk) direction byte
  refine ⟨h.elsewhere, h.absent, h.pattern, fun direction byte left => ?_, fun k lt => ?_, ?_⟩
  · rcases pending.1 left with old | ⟨rfl, member⟩
    · exact h.pending direction byte old
    · -- a chunk begins at an even place, so the pattern fits from its first byte on
      obtain ⟨i, lt, rfl⟩ := Transfer.mem_linear.1 member
      refine ⟨rfl, chunk.offset.toNat + i, by omega, by rw [Nat.add_assoc], ?_, ?_⟩
      · show 0 + i < _
        omega
      · show (0 + i) % 2 = _
        omega
  · rcases h.cleared k lt with right | ⟨m, still⟩ | ⟨next, later, le, last⟩
    · exact .inl right
    · exact .inr (.inl ⟨m, pending.2 (.inl still)⟩)
    · rcases List.mem_cons.1 later with rfl | later
      · refine .inr (.inl ⟨0 + (k - next.offset.toNat), pending.2 (.inr ⟨rfl, ?_⟩)⟩)
        refine Transfer.mem_linear.2 ⟨k - next.offset.toNat, by omega, ?_⟩
        rw [Nat.add_assoc base, Nat.add_sub_cancel' le]
      · exact .inr (.inr ⟨next, later, le, last⟩)
  · show known (s.engine.started ++ [chunkTransfer base chunk] ++ _) _
    rw [List.append_assoc]
    exact h.known

variable (lawful : path.Lawful) (sub : ∀ k < Framebuffer.byteSize.toNat, region (base + k))

include lawful sub

/-- Every byte that is copied goes to the framebuffer, with its colour. Nothing that is held there
can hide it or be written over it. -/
theorem clearing_stable (rest : List ClearChunk) :
    (hardware path).Stable (Clearing path base color region before known rest) := by
  intro s t moved h
  cases moved with
  | memory moved =>
    obtain ⟨gentle, absent⟩ := lawful.moves moved
    refine ⟨h.elsewhere.gentle gentle, fun k lt => absent _ (h.absent k lt), h.pattern, h.pending,
      fun k lt => ?_, h.known⟩
    -- nothing is held of the framebuffer that could be written over it
    rw [gentle.rdram (h.absent k lt).settled]
    exact h.cleared k lt
  | @engine engine rdram moved =>
    have started := moved.started
    obtain ⟨fewer, copied⟩ := moved.copies
    have pending := fun direction byte left => h.pending direction byte (fewer direction byte left)
    rcases copied with ⟨byte, out, -⟩ | ⟨byte, out, dmem, rfl, left⟩ | ⟨dmem, rfl, left⟩
    · exact nomatch (h.pending _ _ out).1
    · -- a byte of the pattern has the parity of the place that it is copied to
      obtain ⟨-, l, lt, place, inside, parity⟩ := h.pending _ _ out
      have right : s.engine.dmem byte.mem = color.byte l :=
        (h.pattern _ inside).trans (color.byte_congr parity)
      refine ⟨h.elsewhere.step (fun _ _ => rfl) fun a outside => ?_, h.absent, ?_, pending,
        fun k ltk => ?_, by rw [started]; exact h.known⟩
      · refine Function.update_of_ne ?_ ..
        rintro rfl
        exact outside (place ▸ sub l lt)
      · show ∀ k < _, engine.dmem k = _
        rw [dmem]
        exact h.pattern
      · show Function.update _ _ _ _ = _ ∨ (∃ m, engine.Pending _ _) ∨ _
        by_cases same : k = l
        · subst same
          rw [← place, Function.update_self]
          exact .inl right
        · rw [Function.update_of_ne (by omega)]
          refine (h.cleared k ltk).imp_right (Or.imp_left fun ⟨m, still⟩ => ⟨m, ?_⟩)
          refine (left _ _ still).resolve_right fun ⟨_, eq⟩ => same ?_
          have := congrArg PendingByte.dram eq
          have : base + k = byte.dram := this
          omega
    · refine ⟨h.elsewhere, h.absent, ?_, pending, fun k lt => ?_, by rw [started]; exact h.known⟩
      · show ∀ k < _, engine.dmem k = _
        rw [dmem]
        exact h.pattern
      · exact (h.cleared k lt).imp_right (Or.imp_left fun ⟨m, still⟩ => ⟨m, left _ _ still⟩)

variable (holds : ∀ ⦃rest s⦄, Clearing path base color region before
  (fun started origin => known (started ++ rest.map (chunkTransfer base)) origin) rest s → claim s)

include holds

theorem clearing_sound (rest : List ClearChunk) :
    (hardware path).Sound (.always claim) (Clearing path base color region before
      (fun started origin => known (started ++ rest.map (chunkTransfer base)) origin) rest) :=
  ⟨clearing_stable lawful sub rest, fun _ h => holds h⟩

/-- One chunk: once there is room its transfer is started, and its bytes are outstanding. -/
theorem ensures_clearChunk {config : Config} {target : PhysAddr} (eq : target.word.toNat = base)
    (fits : base + Framebuffer.byteSize.toNat ≤ 2 ^ 29) {chunk : ClearChunk}
    {rest : List ClearChunk} (member : chunk ∈ Video.clearChunks) :
    (hardware path).Ensures (.always claim)
      (Clearing path base color region before
        (fun started origin => known (started ++ (chunk :: rest).map (chunkTransfer base)) origin)
        (chunk :: rest))
      (Video.clearChunk config target chunk) fun _ =>
        Clearing path base color region before
          (fun started origin => known (started ++ rest.map (chunkTransfer base)) origin)
          rest := by
  obtain ⟨-, -, short, -⟩ := Video.chunk_inside member
  have place : (target.offset chunk.offset.toUInt32).word.toNat = base + chunk.offset.toNat := by
    rw [← eq] at fits ⊢
    exact Video.toNat_offset_chunk fits member
  have keeps := keeps_aside (clearing_sound lawful sub holds (chunk :: rest))
  refine .bind ((queueLaws path).ensures_waitQueue keeps config) fun _ => ?_
  have waited := ((queueLaws path).keeps_and_le keeps (QueueLaws.room config)).toSound
  refine .ofExcept_bind waited fun descriptor built => ?_
  refine ensures_start built (Nat.le_trans short (by decide)) waited
    (clearing_sound lawful sub holds rest) ?_ ?_ ?_
  · rintro s memAddr dramAddr ⟨h, few⟩
    exact ⟨⟨h.elsewhere, h.absent, h.pattern, h.pending, h.cleared, h.known⟩, few⟩
  · rintro s ⟨-, few⟩
    have : QueueLaws.room config ≤ 1 := by
      unfold QueueLaws.room
      split <;> decide
    omega
  · rintro s ⟨h, -⟩
    rw [place]
    exact h.push member

/-- All chunks of a framebuffer of which nothing is held, from an idle engine to an idle engine. -/
theorem ensures_clearChunks {config : Config} {target : PhysAddr}
    {ready : Bytes → List Transfer → UInt32 → Prop} (eq : target.word.toNat = base)
    (fits : base + Framebuffer.byteSize.toNat ≤ 2 ^ 29)
    (start : ∀ dmem started origin, ready dmem started origin →
      known (started ++ Video.clearChunks.map (chunkTransfer base)) origin ∧
        ∀ k < pageSize.toNat, dmem k = color.byte k) :
    (hardware path).Ensures (.always claim)
      (Idle (fun memory => path.Elsewhere region before memory ∧
        ∀ k < Framebuffer.byteSize.toNat, path.Absent memory (base + k)) ready)
      (do
        Video.clearChunks.forM (Video.clearChunk config target)
        let _ ← Sp.engine.waitIdle)
      fun _ => Idle (fun memory => path.Elsewhere region before memory ∧
        ∀ k < Framebuffer.byteSize.toNat, path.Absent memory (base + k) ∧
          memory.rdram (base + k) = color.byte k)
        fun dmem started origin => known started origin ∧
          ∀ k < pageSize.toNat, dmem k = color.byte k := by
  have sound := clearing_sound lawful sub holds
  let invariant (rest : List ClearChunk) : Board κ → Prop := Clearing path base color region before
    (fun started origin => known (started ++ rest.map (chunkTransfer base)) origin) rest
  have loop : (hardware path).Ensures (.always claim) (invariant Video.clearChunks)
      (Video.clearChunks.forM (Video.clearChunk config target)) fun _ => invariant [] :=
    .forM invariant Video.clearChunks (sound []) fun chunk rest suffix =>
      ensures_clearChunk lawful sub holds eq fits (suffix.subset List.mem_cons_self)
  refine .bind (loop.of_imp fun s h => ?_) fun _ => ?_
  · obtain ⟨ready, pattern⟩ := start _ _ _ h.known
    refine ⟨h.fact.1, h.fact.2, pattern, fun direction byte left => ?_, fun k lt => ?_, ready⟩
    · exact absurd left (TransferEngine.not_pending h.queue)
    · exact .inr (.inr (Video.exists_chunk lt))
  · refine .bind (ensures_waitIdle (sound [])) fun _ => .done (sound_and_idle (sound [])) ?_
    -- no chunk is to come and no byte is outstanding, so every byte is cleared
    rintro s ⟨h, idle⟩
    refine ⟨idle, ⟨h.elsewhere, fun k lt => ⟨h.absent k lt, ?_⟩⟩, ?_, h.pattern⟩
    · rcases h.cleared k lt with right | ⟨m, still⟩ | ⟨chunk, more, -⟩
      · exact right
      · exact absurd still (TransferEngine.not_pending idle)
      · exact absurd more List.not_mem_nil
    · have known := h.known
      rw [List.map_nil, List.append_nil] at known
      exact known

end Clearing

end Board

end ColdBoot
