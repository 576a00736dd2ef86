import ColdBoot.Log
import ColdBoot.Log.Host

/-! # The log window loses nothing

Printing cuts a text twice, into bufferfuls of 512 bytes and each of them into words of four, and it
leaves the words of earlier bufferfuls lying in the buffer. The host shows the text for all that.

* **`Viewer.Flushes`** – what it takes to print one bufferful, told by the writes alone;
* **`Viewer.IsPrinting`** – the bufferfuls of a text, full ones but for the last;
* **`Viewer.IsPrinting.shown`** – such writes make the host show the text, whatever its buffer held;
* **`Viewer.puts_lossless`** – putting texts one after the other makes such writes and no others, so
that the host shows the texts one behind the other. -/

namespace ColdBoot

/-- The event of writing a register. -/
def written (register : Register) (value : UInt32) : Event := ⟨.write register value, ()⟩

namespace Program

variable {α β : Type}

/-- The program returns this value after these events, whatever it is answered: its other runs are
this one cut off. -/
structure Plays (program : Program α) (events : List Event) (value : α) : Prop where
  returns : program.Runs events (.returned value)
  only : ∀ others ending, program.Runs others ending →
    others <+: events ∧ ending = .cut ∨ others = events ∧ ending = .returned value

namespace Plays

theorem done (value : α) : (Program.done value).Plays [] value where
  returns := .done value
  only := by
    intro others ending run
    cases run with
    | done => exact .inr ⟨rfl, rfl⟩
    | cut => exact .inl ⟨List.nil_prefix, rfl⟩

/-- One access whose answer says nothing. -/
theorem perform (command : Command) (value : command.Answer) (only : ∀ answer, answer = value) :
    (Program.perform command).Plays [⟨command, value⟩] value where
  returns := .step value (.done value)
  only := by
    intro others ending run
    cases run with
    | cut => exact .inl ⟨List.nil_prefix, rfl⟩
    | step answer rest =>
      obtain rfl := only answer
      cases rest with
      | done => exact .inr ⟨rfl, rfl⟩
      | cut => exact .inl ⟨List.prefix_rfl, rfl⟩

theorem write (register : Register) (value : UInt32) :
    (Program.write register value).Plays [written register value] () :=
  perform (.write register value) () fun _ => rfl

theorem bind {program : Program α} {f : α → Program β} {first second : List Event} {value : α}
    {final : β} (h : program.Plays first value) (rest : (f value).Plays second final) :
    (program >>= f).Plays (first ++ second) final where
  returns := h.returns.bind rest.returns
  only := by
    intro others ending run
    rcases run.of_bind with ⟨early, part, lifted⟩ | ⟨events₁, events₂, between, part, behind, rfl⟩
    · -- the run is over in the first part, and so it is cut off
      rcases h.only _ _ part with ⟨front, rfl⟩ | ⟨-, rfl⟩
      · cases lifted
        exact .inl ⟨front.trans (List.prefix_append _ _), rfl⟩
      · cases lifted
    · rcases h.only _ _ part with ⟨-, cut⟩ | ⟨rfl, same⟩
      · cases cut
      · cases same
        rcases rest.only _ _ behind with ⟨front, rfl⟩ | ⟨rfl, rfl⟩
        · exact .inl ⟨(List.prefix_append_right_inj _).2 front, rfl⟩
        · exact .inr ⟨rfl, rfl⟩

theorem forM {ι : Type} {f : ι → Program PUnit} {events : ι → List Event} (items : List ι)
    (h : ∀ item, (f item).Plays (events item) ()) :
    (items.forM f).Plays (items.flatMap events) () := by
  induction items with
  | nil => exact done _
  | cons item rest ih =>
    rw [List.flatMap_cons]
    exact (h item).bind ih

end Plays

end Program

namespace Viewer

/-! ### Cutting a list into pieces -/

section Pieces

variable {α : Type} (size : Nat)

theorem pieces_nil : pieces size ([] : List α) = [] := by rw [pieces]

theorem pieces_of_ne_nil {items : List α} (h : items ≠ []) :
    pieces size items = items.take (size + 1) :: pieces size (items.drop (size + 1)) := by
  cases items with
  | nil => exact absurd rfl h
  | cons first rest => rw [pieces, List.take_succ_cons, List.drop_succ_cons]

/-- A list is cut by taking pieces off its front until nothing is left. -/
theorem pieces_induction {motive : List α → Prop} (nil : motive [])
    (step : ∀ items, items ≠ [] → motive (items.drop (size + 1)) → motive items)
    (items : List α) : motive items := by
  induction items using pieces.induct size with
  | case1 => exact nil
  | case2 first rest ih =>
    apply step _ (List.cons_ne_nil first rest)
    rw [List.drop_succ_cons]
    exact ih

theorem flatten_pieces (items : List α) : (pieces size items).flatten = items := by
  induction items using pieces_induction size with
  | nil => rw [pieces_nil, List.flatten_nil]
  | step items nonempty ih =>
    rw [pieces_of_ne_nil size nonempty, List.flatten_cons, ih, List.take_append_drop]

theorem length_pieces (items : List α) :
    (pieces size items).length = (items.length + size) / (size + 1) := by
  induction items using pieces_induction size with
  | nil =>
    rw [pieces_nil, List.length_nil, List.length_nil, Nat.zero_add,
      Nat.div_eq_of_lt (Nat.lt_succ_self size)]
  | step items nonempty ih =>
    have positive := List.length_pos_iff.2 nonempty
    rw [pieces_of_ne_nil size nonempty, List.length_cons, ih, List.length_drop,
      ← Nat.add_div_right _ (Nat.succ_pos size)]
    by_cases short : items.length ≤ size + 1
    · rw [Nat.sub_eq_zero_of_le short]
      have one (n : Nat) (least : size + 1 ≤ n) (most : n < (size + 1) * 2) : n / (size + 1) = 1 :=
        Nat.div_eq_of_lt_le (by omega) (by omega)
      rw [one _ (by omega) (by omega), one _ (by omega) (by omega)]
    · congr 1
      omega

/-- Piece number `i` starts behind `i` whole ones. -/
theorem getElem_pieces (items : List α) (i : Nat) (h : i < (pieces size items).length) :
    (pieces size items)[i] = (items.drop ((size + 1) * i)).take (size + 1) := by
  induction items using pieces_induction size generalizing i with
  | nil =>
    rw [pieces_nil] at h
    exact absurd h (Nat.not_lt_zero i)
  | step items nonempty ih =>
    simp only [pieces_of_ne_nil size nonempty] at h ⊢
    cases i with
    | zero => rw [List.getElem_cons_zero, Nat.mul_zero, List.drop_zero]
    | succ i =>
      rw [List.getElem_cons_succ, ih i (Nat.lt_of_succ_lt_succ h), List.drop_drop,
        Nat.add_comm (size + 1), ← Nat.mul_succ]

/-- A piece starts inside the list. -/
theorem lt_length_of_lt_pieces {items : List α} {i : Nat} (h : i < (pieces size items).length) :
    (size + 1) * i < items.length := by
  rw [length_pieces, Nat.lt_div_iff_mul_lt (Nat.succ_pos size), Nat.succ_sub_one,
    Nat.add_sub_cancel, Nat.mul_comm] at h
  exact h

/-- No piece is empty, and none is too long. -/
theorem length_of_mem_pieces (items : List α) :
    ∀ piece ∈ pieces size items, 1 ≤ piece.length ∧ piece.length ≤ size + 1 := by
  intro piece member
  obtain ⟨i, inside, rfl⟩ := List.getElem_of_mem member
  have start := lt_length_of_lt_pieces size inside
  rw [getElem_pieces, List.length_take, List.length_drop]
  omega

/-- All pieces but the last are full. -/
theorem length_of_mem_dropLast_pieces (items : List α) :
    ∀ piece ∈ (pieces size items).dropLast, piece.length = size + 1 := by
  intro piece member
  obtain ⟨i, inside, rfl⟩ := List.getElem_of_mem member
  -- another piece starts behind this one
  have start : (size + 1) * (i + 1) < items.length := by
    apply lt_length_of_lt_pieces size
    rw [List.length_dropLast] at inside
    omega
  rw [Nat.mul_succ] at start
  rw [List.getElem_dropLast, getElem_pieces, List.length_take, List.length_drop]
  omega

end Pieces

/-! ### Bytes of words -/

/-- A packed word has its bytes on their places. -/
theorem shiftRight_packWord (bytes : List UInt8) {i : Nat} (h : i < 4) :
    (packWord bytes >>> (24 - 8 * UInt32.ofNat i)).toUInt8 = bytes.getD i 0 := by
  have places (a b c d : UInt8) :
      let word := (a.toUInt32 <<< 24) ||| (b.toUInt32 <<< 16) ||| (c.toUInt32 <<< 8) ||| d.toUInt32
      (word >>> 24).toUInt8 = a ∧ (word >>> 16).toUInt8 = b ∧ (word >>> 8).toUInt8 = c ∧
        (word >>> 0).toUInt8 = d := by
    -- told apart by their bits: the other bytes have none there
    refine ⟨?_, ?_, ?_, ?_⟩ <;> apply UInt8.eq_of_toBitVec_eq <;> ext i hi
    case refine_4 => simp
    all_goals simp; grind
  obtain ⟨first, second, third, fourth⟩ :=
    places (bytes.getD 0 0) (bytes.getD 1 0) (bytes.getD 2 0) (bytes.getD 3 0)
  match i, h with
  | 0, _ => exact first
  | 1, _ => exact second
  | 2, _ => exact third
  | 3, _ => exact fourth

/-- The row of words that a list of bytes is packed into has its bytes, and zeros behind them. -/
theorem byteAt_packWord (bytes : List UInt8) (i : Nat) :
    byteAt (fun slot => packWord ((bytes.drop (4 * slot)).take 4)) i = bytes.getD i 0 := by
  have low : i % 4 < 4 := Nat.mod_lt i (by decide)
  rw [byteAt, shiftRight_packWord _ low, List.getD_eq_getElem?_getD, List.getElem?_take_of_lt low,
    List.getElem?_drop, Nat.div_add_mod, List.getD_eq_getElem?_getD]

/-! ### One bufferful -/

/-- Words that the buffer has room for. -/
def bufferWords : Nat := chunkSize / 4

/-- Words that hold so many bytes. -/
def wordsFor (count : Nat) : Nat := (count + 3) / 4

/-- The events of writing a row of words to the first slots, one after the other. -/
def filling (words : Nat → UInt32) (count : Nat) : List Event :=
  (List.range count).map fun slot => written (ViewerRegister.buffer slot) (words slot)

/-- One bufferful of bytes is printed: their words go into the first slots one after the other, then
their number goes into the length register. -/
structure Flushes (bytes : List UInt8) (events : List Event) : Prop where
  nonempty : 1 ≤ bytes.length
  fits : bytes.length ≤ chunkSize
  /-- The words hold the bytes, and zeros behind the last one. -/
  writes : ∃ words : Nat → UInt32,
    (∀ i < 4 * wordsFor bytes.length, byteAt words i = bytes.getD i 0) ∧
      events = filling words (wordsFor bytes.length) ++
        [written ViewerRegister.length (UInt32.ofNat bytes.length)]

namespace Host

theorem observe_buffer (host : Host) (slot : Nat) (value : UInt32) :
    host.observe (written (ViewerRegister.buffer slot) value) = { host with
      words := fun other =>
        if other = ViewerRegister.buffer slot then value else host.words other } := by
  have other : ViewerRegister.buffer slot ≠ ViewerRegister.length := by
    intro same
    injection same with _ offset
    omega
  have inWindow : (ViewerRegister.buffer slot).block = .viewer := rfl
  rw [written, observe, if_pos inWindow, write, if_neg other]

theorem observe_length (host : Host) (value : UInt32) :
    host.observe (written ViewerRegister.length value) = { host with
      shown := host.shown ++
        bytesOf (fun slot => host.words (ViewerRegister.buffer slot)) value.toNat } := rfl

/-- Filling the buffer shows nothing, and puts the words where they belong. -/
theorem observeAll_filling (host : Host) (words : Nat → UInt32) (count : Nat) :
    (host.observeAll (filling words count)).shown = host.shown ∧
      ∀ slot < count,
        (host.observeAll (filling words count)).words (ViewerRegister.buffer slot) = words slot := by
  induction count with
  | zero => exact ⟨rfl, fun slot h => absurd h (Nat.not_lt_zero slot)⟩
  | succ count ih =>
    obtain ⟨shown, held⟩ := ih
    have last : filling words (count + 1) =
        filling words count ++ [written (ViewerRegister.buffer count) (words count)] := by
      rw [filling, List.range_succ, List.map_append]
      rfl
    rw [last, observeAll_append, observeAll_cons, observeAll_nil, observe_buffer]
    constructor
    · exact shown
    · intro slot h
      show (if _ then _ else _) = words slot
      by_cases same : slot = count
      · rw [same, if_pos rfl]
      · have other : ViewerRegister.buffer slot ≠ ViewerRegister.buffer count := by
          intro equal
          injection equal with _ offset
          omega
        rw [if_neg other]
        exact held slot (by omega)

end Host

/-- The bytes of a row of words that are known one by one. -/
theorem bytesOf_eq {words : Nat → UInt32} {bytes : List UInt8}
    (h : ∀ i < bytes.length, byteAt words i = bytes.getD i 0) :
    bytesOf words bytes.length = bytes := by
  apply List.ext_getElem
  · rw [bytesOf, List.length_map, List.length_range]
  · intro i _ inside
    simp only [bytesOf, List.getElem_map, List.getElem_range]
    rw [h i inside, List.getD_eq_getElem?_getD, List.getElem?_eq_getElem inside, Option.getD_some]

namespace Flushes

variable {bytes : List UInt8} {events : List Event}

/-- The words of a bufferful have room in the buffer. -/
theorem wordsFor_le (h : Flushes bytes events) : wordsFor bytes.length ≤ bufferWords := by
  have fits : bytes.length ≤ 512 := h.fits
  rw [wordsFor, show bufferWords = 128 from rfl]
  omega

/-- **A bufferful is shown** as it is, whatever lies in the buffer. -/
theorem shown (h : Flushes bytes events) (host : Host) :
    (host.observeAll events).shown = host.shown ++ bytes := by
  obtain ⟨words, packed, rfl⟩ := h.writes
  obtain ⟨before, held⟩ := host.observeAll_filling words (wordsFor bytes.length)
  have count : (UInt32.ofNat bytes.length).toNat = bytes.length := by
    have fits : bytes.length ≤ 512 := h.fits
    rw [UInt32.toNat_ofNat']
    omega
  rw [Host.observeAll_append, Host.observeAll_cons, Host.observeAll_nil, Host.observe_length, before,
    count, bytesOf_eq]
  intro i inside
  have slot : i / 4 < wordsFor bytes.length := by
    rw [wordsFor]
    omega
  rw [byteAt, held _ slot]
  exact packed i (by omega)

end Flushes

/-! ### Whole texts -/

/-- A text is printed: its bufferfuls, full ones but for the last, are printed one after the other. -/
inductive IsPrinting : List UInt8 → List Event → Prop where
  /-- Nothing is written for an empty text. -/
  | nothing : IsPrinting [] []
  | last {bytes : List UInt8} {events : List Event} (flush : Flushes bytes events) :
      IsPrinting bytes events
  | full {bytes rest : List UInt8} {events behind : List Event} (flush : Flushes bytes events)
      (full : bytes.length = chunkSize) (more : IsPrinting rest behind) :
      IsPrinting (bytes ++ rest) (events ++ behind)

/-- A write to the length register, or to a word of the buffer. -/
def InWindow (event : Event) : Prop :=
  (∃ value, event = written ViewerRegister.length value) ∨
    ∃ slot < bufferWords, ∃ value, event = written (ViewerRegister.buffer slot) value

theorem Flushes.inWindow {bytes : List UInt8} {events : List Event} (h : Flushes bytes events) :
    ∀ event ∈ events, InWindow event := by
  have room := h.wordsFor_le
  obtain ⟨words, -, rfl⟩ := h.writes
  intro event member
  rcases List.mem_append.1 member with inside | inside
  · obtain ⟨slot, low, rfl⟩ := List.mem_map.1 inside
    exact .inr ⟨slot, Nat.lt_of_lt_of_le (List.mem_range.1 low) room, _, rfl⟩
  · rw [List.mem_singleton.1 inside]
    exact .inl ⟨_, rfl⟩

namespace IsPrinting

variable {text : List UInt8} {events : List Event}

/-- **A text is shown** as it is, whatever lies in the buffer. -/
theorem shown (h : IsPrinting text events) (host : Host) :
    (host.observeAll events).shown = host.shown ++ text := by
  induction h generalizing host with
  | nothing => rw [Host.observeAll_nil, List.append_nil]
  | last flush => exact flush.shown host
  | full flush _ _ ih => rw [Host.observeAll_append, ih, flush.shown, List.append_assoc]

theorem inWindow (h : IsPrinting text events) : ∀ event ∈ events, InWindow event := by
  induction h with
  | nothing => simp
  | last flush => exact flush.inWindow
  | full flush _ _ ih =>
    intro event member
    rcases List.mem_append.1 member with inside | inside
    · exact flush.inWindow event inside
    · exact ih event inside

end IsPrinting

/-! ### What putting a text does -/

/-- The events of printing one bufferful. -/
def flushing (bytes : List UInt8) : List Event :=
  filling (fun slot => packWord ((bytes.drop (4 * slot)).take 4)) (wordsFor bytes.length) ++
    [written ViewerRegister.length (UInt32.ofNat bytes.length)]

/-- The events of printing a text. -/
def printing (text : List UInt8) : List Event := (pieces (chunkSize - 1) text).flatMap flushing

theorem flushes_flushing {bytes : List UInt8} (nonempty : 1 ≤ bytes.length)
    (fits : bytes.length ≤ chunkSize) : Flushes bytes (flushing bytes) where
  nonempty := nonempty
  fits := fits
  writes := ⟨_, fun i _ => byteAt_packWord bytes i, rfl⟩

theorem isPrinting_printing (text : List UInt8) : IsPrinting text (printing text) := by
  have sizes := length_of_mem_pieces (chunkSize - 1) text
  have full := length_of_mem_dropLast_pieces (chunkSize - 1) text
  conv => lhs; rw [← flatten_pieces (chunkSize - 1) text]
  rw [printing]
  generalize pieces (chunkSize - 1) text = bufferfuls at sizes full
  induction bufferfuls with
  | nil => exact .nothing
  | cons bytes rest ih =>
    rw [List.forall_mem_cons] at sizes
    have flush := flushes_flushing sizes.1.1 sizes.1.2
    rw [List.flatten_cons, List.flatMap_cons]
    cases rest with
    | nil =>
      rw [List.flatten_nil, List.flatMap_nil, List.append_nil, List.append_nil]
      exact .last flush
    | cons next rest =>
      rw [List.dropLast_cons_cons, List.forall_mem_cons] at full
      exact .full flush full.1 (ih sizes.2 full.2)

theorem plays_fill (slot : Nat) (words : List (List UInt8)) : (fill slot words).Plays
    (words.mapIdx fun i word => written (ViewerRegister.buffer (slot + i)) (packWord word)) () := by
  induction words generalizing slot with
  | nil => exact .done ()
  | cons word rest ih =>
    have behind : (fun i bytes => written (ViewerRegister.buffer (slot + (i + 1))) (packWord bytes)) =
        fun i bytes => written (ViewerRegister.buffer (slot + 1 + i)) (packWord bytes) := by
      funext i bytes
      rw [Nat.add_right_comm, Nat.add_assoc]
    rw [List.mapIdx_cons, behind]
    exact (Program.Plays.write _ _).bind (ih (slot + 1))

theorem plays_flush (bytes : List UInt8) : (flush bytes).Plays (flushing bytes) () := by
  have words : (pieces 3 bytes).mapIdx
      (fun i word => written (ViewerRegister.buffer (0 + i)) (packWord word)) =
        filling (fun slot => packWord ((bytes.drop (4 * slot)).take 4)) (wordsFor bytes.length) := by
    apply List.ext_getElem
    · rw [List.length_mapIdx, length_pieces, filling, List.length_map, List.length_range, wordsFor]
    · intro i _ _
      simp only [filling, List.getElem_mapIdx, List.getElem_map, List.getElem_range, Nat.zero_add]
      rw [getElem_pieces]
  rw [flushing, ← words]
  exact (plays_fill 0 (pieces 3 bytes)).bind (.write _ _)

theorem plays_put (bytes : List UInt8) : (put bytes).Plays (printing bytes) () :=
  .forM _ plays_flush

/-- **The log window loses nothing.** Putting texts one after the other always returns, and it makes
the writes that print them and no others. These make the host show the texts one behind the other,
whatever it has shown and whatever its buffer holds; nothing is written for an empty text, and
nothing behind the buffer. -/
theorem puts_lossless (texts : List (List UInt8)) :
    (texts.forM put).Plays (texts.flatMap printing) () ∧
      (∀ host : Host,
        (host.observeAll (texts.flatMap printing)).shown = host.shown ++ texts.flatten) ∧
      (∀ text, IsPrinting text (printing text)) ∧ printing [] = [] ∧
      ∀ event ∈ texts.flatMap printing, InWindow event := by
  refine ⟨.forM texts plays_put, fun host => ?_, isPrinting_printing, ?_, fun event member => ?_⟩
  · induction texts generalizing host with
    | nil => rw [List.flatMap_nil, List.flatten_nil, List.append_nil, Host.observeAll_nil]
    | cons text rest ih =>
      rw [List.flatMap_cons, List.flatten_cons, Host.observeAll_append, ih,
        (isPrinting_printing text).shown, List.append_assoc]
  · rw [printing, pieces_nil, List.flatMap_nil]
  · obtain ⟨text, -, inside⟩ := List.mem_flatMap.1 member
    exact (isPrinting_printing text).inWindow event inside

end Viewer

/-! ### Records -/

/-- The writes that print a record, if the filter admits it. -/
def LogRecord.printed (filter : LogFilter) (record : LogRecord) : List Event :=
  if filter.admits record.level then
    record.linePieces.flatMap fun piece => Viewer.printing piece.toUTF8.toList
  else []

theorem LogRecord.plays_emit (filter : LogFilter) (record : LogRecord) :
    (record.emit filter).Plays (record.printed filter) () := by
  rw [emit, printed]
  split
  · exact .forM record.linePieces fun piece => Viewer.plays_put piece.toUTF8.toList
  · exact .done ()

theorem LogRecord.inWindow_printed (filter : LogFilter) (record : LogRecord) :
    ∀ event ∈ record.printed filter, Viewer.InWindow event := by
  intro event member
  rw [printed] at member
  split at member
  · obtain ⟨piece, -, inside⟩ := List.mem_flatMap.1 member
    exact (Viewer.isPrinting_printing piece.toUTF8.toList).inWindow event inside
  · cases member

end ColdBoot
