import Handheld.FirmwareUpdate

/-!
# One firmware update from `begin` to `end`

`Session` is what holds while an update is running: which bytes of the image are
in the flash, which wait in the buffer, and which part of the flash ahead is
already erased.

Results:
1. `writeBuffer_spec`: what one buffer leaves in the flash.
2. `write_spec`, `end_spec`: an update takes all bytes or ends with an error, and
   what one that ends well leaves of the bytes it was given.
-/

namespace Handheld

open ByteString NorFlash

namespace Updater

/-! ## 1. What one buffer leaves in the flash -/

/-- The check of the first buffer of a firmware starts at byte 4 and stops twelve
bytes before its end. It finds nothing there, but there is something behind the 16
bytes that are held back. -/
def overlooked (p : Partition) (command : Command) (image : Bytes) : Bool :=
  let first := image.take sectorSize
  command = .flash && !p.encrypted &&
    !chkDataInBlock ((first.drop (encryptedBlockSize / 4)).take (first.length - encryptedBlockSize)) &&
    (first.drop encryptedBlockSize).any (· != blank)

/-- What an update leaves in the flash of an image: where something was overlooked,
the rest of the first buffer is not programmed. -/
def inFlash (p : Partition) (command : Command) (image : Bytes) : Bytes :=
  if overlooked p command image then
    image.take encryptedBlockSize ++
      List.replicate ((image.take sectorSize).length - encryptedBlockSize) blank ++ image.drop sectorSize
  else image

/-- The bytes that are not in the flash before `end`. -/
def heldBack : Command → Nat
  | .flash => encryptedBlockSize
  | .spiffs => 0

/-- The rest of the block is erased, where its sectors are not erased one by one. -/
def Ahead (p : Partition) (progress : Nat) (m : Memory) : Prop :=
  (p.address + progress) % blockSize ≠ 0 →
    p.address % blockSize = 0 ∨ (p.address / blockSize + 1) * blockSize ≤ p.address + progress →
      p.address + progress < (p.address + p.size) / blockSize * blockSize →
        Blank m (p.address + progress) ((p.address + progress) / blockSize * blockSize + blockSize)

/-- The start of a firmware waits in memory, and the flash is blank there. -/
structure Stashed (board : Board) (p : Partition) (done : Bytes) (u : Updater) : Prop where
  long : encryptedBlockSize ≤ done.length
  magic : done.head? = some imageHeaderMagic
  skipBuffer : u.skipBuffer = some (done.take encryptedBlockSize)
  stub : Blank (u.memory board) p.address (p.address + encryptedBlockSize)

/-- The bytes `done` have gone from the buffer to the partition. -/
structure Stored (board : Board) (p : Partition) (done : Bytes) (u : Updater) : Prop where
  partition : u.partition = some p
  progress : u.progress = done.length
  fits : done.length ≤ p.size
  md5 : u.md5 = done
  nothing : done = [] → u.skipBuffer = none
  plain : done ≠ [] → u.decrypting = false
  firmware : u.command = .flash → done ≠ [] → Stashed board p done u
  body : read (u.memory board) (p.address + heldBack u.command) (done.length - heldBack u.command) =
    (inFlash p u.command done).drop (heldBack u.command)

/-- An update is running, and its buffer was last emptied at the end of a sector. -/
structure Session (board : Board) (p : Partition) (done : Bytes) (u : Updater) : Prop
    extends Stored board p done u where
  error : u.error = .ok
  size : u.size = p.size
  running : 0 < p.size
  sector : sectorSize ∣ done.length
  buffer_le : u.buffer.length ≤ sectorSize
  ahead : Ahead p done.length (u.memory board)

section inFlash

variable {p : Partition} {command : Command} {image x : Bytes}

theorem inFlash_of_not_overlooked (h : overlooked p command image = false) :
    inFlash p command image = image := if_neg (by simp [h])

@[simp] theorem inFlash_spiffs (p : Partition) (image : Bytes) : inFlash p .spiffs image = image :=
  inFlash_of_not_overlooked rfl

@[simp] theorem inFlash_nil (p : Partition) (command : Command) : inFlash p command [] = [] := by
  cases h : overlooked p command [] with
  | false => exact inFlash_of_not_overlooked h
  | true => simp [overlooked] at h

/-- What is overlooked is longer than what is held back. -/
theorem lt_of_overlooked (h : overlooked p command image = true) :
    encryptedBlockSize < (image.take sectorSize).length := by
  unfold overlooked at h
  dsimp only at h
  rw [Bool.and_eq_true, Bool.and_eq_true, Bool.not_eq_true'] at h
  refine Nat.lt_of_not_le fun hle => absurd h.1.2 ?_
  rw [Nat.sub_eq_zero_of_le hle, List.take_zero]
  decide

@[simp] theorem length_inFlash (p : Partition) (command : Command) (image : Bytes) :
    (inFlash p command image).length = image.length := by
  cases h : overlooked p command image with
  | false => rw [inFlash_of_not_overlooked h]
  | true =>
    have hlt := lt_of_overlooked h
    unfold inFlash
    rw [if_pos h]
    simp only [List.length_append, List.length_replicate, List.length_take, List.length_drop] at *
    omega

theorem take_inFlash (p : Partition) (command : Command) (image : Bytes) :
    (inFlash p command image).take encryptedBlockSize = image.take encryptedBlockSize := by
  cases h : overlooked p command image with
  | false => rw [inFlash_of_not_overlooked h]
  | true =>
    have hlt := lt_of_overlooked h
    have hlength : (image.take encryptedBlockSize).length = encryptedBlockSize := by
      rw [List.length_take] at *
      omega
    unfold inFlash
    rw [if_pos h, List.append_assoc]
    exact List.take_left' hlength

/-- Only the first buffer matters. -/
theorem inFlash_append (hx : sectorSize ≤ x.length) (y : Bytes) :
    inFlash p command (x ++ y) = inFlash p command x ++ y := by
  have htake : (x ++ y).take sectorSize = x.take sectorSize := List.take_append_of_le_length hx
  have hsame : overlooked p command (x ++ y) = overlooked p command x := by
    unfold overlooked
    rw [htake]
  unfold inFlash
  rw [hsame, htake, List.drop_append_of_le_length hx, List.take_append_of_le_length]
  · split_ifs
    · simp only [List.append_assoc]
    · rfl
  · exact Nat.le_trans (by decide) hx

theorem first_append (image : Bytes) :
    image.take encryptedBlockSize ++ (image.take sectorSize).drop encryptedBlockSize ++
      image.drop sectorSize = image := by
  have htake : (image.take sectorSize).take encryptedBlockSize = image.take encryptedBlockSize := by
    rw [List.take_take]
    rfl
  rw [← htake, List.take_append_drop, List.take_append_drop]

/-- The flash holds the image exactly where nothing is overlooked. -/
theorem inFlash_eq_iff : inFlash p command image = image ↔ overlooked p command image = false := by
  refine ⟨fun heq => Bool.eq_false_iff.mpr fun h => ?_, inFlash_of_not_overlooked⟩
  have hblank : List.replicate ((image.take sectorSize).length - encryptedBlockSize) blank =
      (image.take sectorSize).drop encryptedBlockSize := by
    rw [inFlash, if_pos h] at heq
    exact List.append_cancel_left (List.append_cancel_right (heq.trans (first_append image).symm))
  unfold overlooked at h
  dsimp only at h
  rw [← hblank, Bool.and_eq_true, List.any_replicate] at h
  simp at h

end inFlash

section writeBuffer

variable {board : Board} {p : Partition} {u : Updater} {done : Bytes}

theorem memory_driven (u : Updater) (ops : List Op) (calls : Nat) :
    (u.driven ops calls).memory board = replay (u.memory board) ops :=
  replay_append board.contents u.ops ops

theorem blockErase_eq_true : u.blockErase p = true ↔
    65536 ≤ u.size - u.progress ∧ (p.address + u.progress) % 65536 = 0 :=
  decide_eq_true_iff

theorem partHeadSectors_eq_true : u.partHeadSectors p = true ↔
    p.address % 65536 ≠ 0 ∧ p.address + u.progress < (p.address / 65536 + 1) * 65536 :=
  decide_eq_true_iff

theorem partTailSectors_eq_true : u.partTailSectors p = true ↔
    (p.address + u.size) / 65536 * 65536 ≤ p.address + u.progress :=
  decide_eq_true_iff

/-- The sector that is written next is erased, and what lies before it untouched. -/
theorem Session.erased (h : Session board p done u) {ops : List Op} (hops : Erases p u ops) :
    (∀ i < p.address + done.length, replay (u.memory board) ops i = u.memory board i) ∧
      Blank (replay (u.memory board) ops) (p.address + done.length)
        (p.address + done.length + sectorSize) ∧
      Ahead p (done.length + sectorSize) (replay (u.memory board) ops) := by
  obtain ⟨a, ha⟩ := p.address_dvd
  obtain ⟨k, hk⟩ := h.sector
  have hprogress := h.progress
  have hsize := h.size
  have hahead := h.ahead
  have hbefore : ∀ i < p.address + done.length, i < p.address + u.progress := by
    intro i hi
    rwa [hprogress]
  simp only [sectorSize_eq] at *
  unfold Ahead at *
  simp only [blockSize_eq] at *
  cases hops with
  | none hblock hhead htail =>
    rw [Bool.eq_false_iff, Ne, blockErase_eq_true] at hblock
    rw [Bool.eq_false_iff, Ne, partHeadSectors_eq_true] at hhead
    rw [Bool.eq_false_iff, Ne, partTailSectors_eq_true] at htail
    have hblank := hahead (by omega) (by omega) (by omega)
    exact ⟨fun _ _ => rfl, hblank.mono (Nat.le_refl _) (by omega), fun _ _ _ =>
      hblank.mono (by omega) (by omega)⟩
  | block hblock hfit =>
    rw [blockErase_eq_true] at hblock
    have hblank := blank_erase (u.memory board) (p.address + u.progress) 65536
    exact ⟨fun i hi => (Op.erase (p.address + u.progress) blockSize).apply_of_lt (hbefore i hi) _,
      hblank.mono (by omega) (by omega), fun _ _ _ => hblank.mono (by omega) (by omega)⟩
  | sector hblock hend hfit =>
    rw [Bool.eq_false_iff, Ne, blockErase_eq_true] at hblock
    rw [partHeadSectors_eq_true, partTailSectors_eq_true] at hend
    have hblank := blank_erase (u.memory board) (p.address + u.progress) 4096
    refine ⟨fun i hi => (Op.erase (p.address + u.progress) sectorSize).apply_of_lt (hbefore i hi) _,
      hblank.mono (by omega) (by omega), fun hnext hhead htail => ?_⟩
    omega

theorem chkDataInBlock_eq_false {data : Bytes} (h : chkDataInBlock data = false) :
    ∀ b ∈ data, b = blank := by
  unfold chkDataInBlock at h
  rw [Bool.or_eq_false_iff, List.any_eq_false] at h
  simpa using h.2

/-- The start of a firmware: blank bytes are not programmed, and neither is what
the check overlooks. -/
theorem programs_first {ops : List Op} (hops : Programs p u ops) (hskip : u.skip = encryptedBlockSize)
    (hflash : u.command = .flash) (hbuffer : u.buffer.length ≤ sectorSize) (m : Memory) :
    replay m ops = (Op.program (p.address + (u.progress + u.skip))
      ((inFlash p u.command u.buffer).drop u.skip)).apply m := by
  have hfirst : u.buffer.take sectorSize = u.buffer := List.take_of_length_le hbuffer
  cases hops with
  | none hplain hcheck =>
    refine (program_of_blank ?_ m _).symm
    rw [hskip] at hcheck ⊢
    cases hover : overlooked p u.command u.buffer with
    | false =>
      rw [inFlash_of_not_overlooked hover]
      unfold overlooked at hover
      dsimp only at hover
      rw [hfirst, hflash, hplain, hcheck] at hover
      simpa using hover
    | true =>
      have hlt := lt_of_overlooked hover
      rw [hfirst] at hlt
      have hlength : (u.buffer.take encryptedBlockSize).length = encryptedBlockSize :=
        List.length_take_of_le (Nat.le_of_lt hlt)
      unfold inFlash
      rw [if_pos hover, List.append_assoc, List.drop_left' hlength, List.drop_of_length_le hbuffer]
      intro b hb
      rw [List.append_nil] at hb
      exact List.eq_of_mem_replicate hb
  | data hcheck hfit =>
    have hover : overlooked p u.command u.buffer = false := by
      unfold overlooked
      dsimp only
      rw [hfirst]
      rw [hskip] at hcheck
      cases hplain : p.encrypted with
      | false =>
        rw [hplain, Bool.false_or] at hcheck
        rw [hcheck]
        simp
      | true => simp
    rw [inFlash_of_not_overlooked hover]
    rfl

theorem programs_later {ops : List Op} (hops : Programs p u ops) (hskip : u.skip = 0) (m : Memory) :
    replay m ops = (Op.program (p.address + (u.progress + u.skip)) u.buffer).apply m := by
  cases hops with
  | none hplain hcheck =>
    rw [hskip] at hcheck
    refine (program_of_blank (chkDataInBlock_eq_false ?_) m _).symm
    simpa using hcheck
  | data =>
    rw [hskip]
    rfl

/-- What is held back is not programmed, and neither is what lies before or behind. -/
theorem programs_of_lt {ops : List Op} (hops : Programs p u ops) {i : Nat}
    (hi : i < p.address + (u.progress + u.skip)) (m : Memory) : replay m ops i = m i := by
  cases hops with
  | none => rfl
  | data => exact (Op.program _ (u.buffer.drop u.skip)).apply_of_lt hi m

theorem programs_of_ge {ops : List Op} (hops : Programs p u ops) (hskip : u.skip ≤ u.buffer.length)
    {i : Nat} (hi : p.address + u.progress + u.buffer.length ≤ i) (m : Memory) :
    replay m ops i = m i := by
  cases hops with
  | none => rfl
  | data =>
    refine (Op.program _ (u.buffer.drop u.skip)).apply_of_ge ?_ m
    show p.address + (u.progress + u.skip) + (u.buffer.drop u.skip).length ≤ i
    rw [List.length_drop]
    omega

theorem memory_flushed (u : Updater) (erased programmed : List Op) (calls : Nat) :
    (u.flushed (erased ++ programmed) calls).memory board =
      replay (replay (u.memory board) erased) programmed := by
  rw [← replay_append]
  exact replay_append board.contents u.ops (erased ++ programmed)

theorem skip_eq (h : u.progress = done.length) :
    u.skip = if done = [] then heldBack u.command else 0 := by
  unfold skip heldBack
  rw [h]
  cases done with
  | nil => cases u.command <;> rfl
  | cons => simp

/-- The start of a firmware stays out of the flash. -/
theorem Session.stashed_flushed (h : Session board p done u) {erased programmed : List Op}
    (herased : Erases p u erased) (hprogrammed : Programs p u programmed)
    (hskip : u.skip ≤ u.buffer.length)
    (hmagic : u.progress = 0 → u.command = .flash → u.buffer.head? = some imageHeaderMagic)
    (calls : Nat) (hflash : u.command = .flash) :
    Stashed board p (done ++ u.buffer) (u.flushed (erased ++ programmed) calls) := by
  have hprogress := h.progress
  have hsector := h.erased herased
  have hskipped := skip_eq (u := u) hprogress
  by_cases hdone : done = []
  · subst hdone
    rw [if_pos rfl, hflash] at hskipped
    refine ⟨?_, ?_, ?_, ?_⟩
    · rw [hskipped] at hskip
      exact hskip
    · exact hmagic hprogress hflash
    · exact if_pos ⟨hprogress, hflash⟩
    · intro i hi hi'
      rw [memory_flushed, programs_of_lt hprogrammed]
      · exact hsector.2.1 i hi (Nat.lt_of_lt_of_le hi' (Nat.add_le_add_left (by decide) _))
      · rw [hskipped, hprogress]
        simpa [heldBack] using hi'
  · obtain ⟨hlong, hhead, hstash, hstub⟩ := h.firmware hflash hdone
    refine ⟨?_, ?_, ?_, ?_⟩
    · exact Nat.le_trans hlong (by simp)
    · rwa [List.head?_append_of_ne_nil _ hdone]
    · have hne : ¬ (u.progress = 0 ∧ u.command = .flash) := fun h0 =>
        hdone (List.length_eq_zero_iff.mp (hprogress ▸ h0.1))
      rw [List.take_append_of_le_length hlong, ← hstash]
      exact if_neg hne
    · intro i hi hi'
      rw [memory_flushed, programs_of_lt hprogrammed (by omega), hsector.1 i (by omega)]
      exact hstub i hi hi'

theorem Session.sector_fits (h : Session board p done u) {ops : List Op} (hops : Erases p u ops) :
    done.length + sectorSize ≤ p.size := by
  obtain ⟨a, ha⟩ := p.address_dvd
  obtain ⟨k, hk⟩ := h.sector
  have hprogress := h.progress
  have hsize := h.size
  cases hops with
  | none hblock hhead htail =>
    rw [Bool.eq_false_iff, Ne, partTailSectors_eq_true] at htail
    simp only [sectorSize_eq] at *
    omega
  | block hblock hfit =>
    simp only [sectorSize_eq, blockSize_eq] at *
    omega
  | sector hblock hend hfit => rwa [← hprogress]

theorem Session.sector_le (h : Session board p done u) (hdone : done ≠ []) :
    sectorSize ≤ done.length :=
  Nat.le_of_dvd (List.length_pos_iff.mpr hdone) h.sector

/-- The buffer lands behind what is stored. -/
theorem Session.body_flushed (h : Session board p done u) {erased programmed : List Op}
    (herased : Erases p u erased) (hprogrammed : Programs p u programmed)
    (hskip : u.skip ≤ u.buffer.length) (calls : Nat) :
    read ((u.flushed (erased ++ programmed) calls).memory board) (p.address + heldBack u.command)
        ((done ++ u.buffer).length - heldBack u.command) =
      (inFlash p u.command (done ++ u.buffer)).drop (heldBack u.command) := by
  have hprogress := h.progress
  have hsector := h.erased herased
  have hskipped := skip_eq (u := u) hprogress
  have hbuffer := h.buffer_le
  by_cases hdone : done = []
  · subst hdone
    rw [if_pos rfl] at hskipped
    have hfirst : replay (replay (u.memory board) erased) programmed =
        (Op.program (p.address + (u.progress + u.skip))
          ((inFlash p u.command u.buffer).drop u.skip)).apply (replay (u.memory board) erased) := by
      cases hcommand : u.command with
      | flash =>
        rw [hcommand] at hskipped
        rw [programs_first hprogrammed hskipped hcommand hbuffer, hcommand]
      | spiffs =>
        rw [hcommand] at hskipped
        rw [programs_later hprogrammed hskipped, inFlash_spiffs, hskipped]
        rfl
    have hlength : ((inFlash p u.command u.buffer).drop u.skip).length = u.buffer.length - u.skip := by
      rw [List.length_drop, length_inFlash]
    rw [memory_flushed, hfirst, List.nil_append, ← hskipped, hprogress, ← hlength]
    refine (congrArg (fun n => read _ n _) (by simp)).trans (read_program _ ?_)
    refine hsector.2.1.mono ?_ ?_
    · simp only [List.length_nil]
      omega
    · rw [hlength]
      simp only [List.length_nil]
      omega
  · rw [if_neg hdone] at hskipped
    have hlong : heldBack u.command ≤ done.length := by
      cases hcommand : u.command with
      | flash => exact (h.firmware hcommand hdone).long
      | spiffs => exact Nat.zero_le _
    have hlength : (done ++ u.buffer).length - heldBack u.command =
        (done.length - heldBack u.command) + u.buffer.length := by
      rw [List.length_append]
      omega
    have hstart : p.address + heldBack u.command + (done.length - heldBack u.command) =
        p.address + done.length := by omega
    rw [hlength, read_append, hstart, inFlash_append (h.sector_le hdone), List.drop_append_of_le_length
      (by rwa [length_inFlash]), ← h.body]
    congr 1
    · refine read_congr fun i hi hi' => ?_
      rw [memory_flushed, programs_of_lt hprogrammed (by omega), hsector.1 i (by omega)]
    · have hland := read_program _ (hsector.2.1.mono (Nat.le_refl _)
        (Nat.add_le_add_left hbuffer (p.address + done.length)))
      rw [memory_flushed, programs_later hprogrammed hskipped, hskipped, Nat.add_zero, hprogress]
      exact hland

/-- The buffer lands behind what is stored. -/
theorem Session.stored_flushed (h : Session board p done u) {erased programmed : List Op}
    (herased : Erases p u erased) (hprogrammed : Programs p u programmed)
    (hskip : u.skip ≤ u.buffer.length)
    (hmagic : u.progress = 0 → u.command = .flash → u.buffer.head? = some imageHeaderMagic)
    (calls : Nat) :
    Stored board p (done ++ u.buffer) (u.flushed (erased ++ programmed) calls) where
  partition := h.partition
  progress := by
    rw [List.length_append, ← h.progress]
    rfl
  fits := by
    rw [List.length_append]
    exact Nat.le_trans (Nat.add_le_add_left h.buffer_le _) (h.sector_fits herased)
  md5 := congrArg (· ++ u.buffer) h.md5
  nothing := by
    intro hnil
    obtain ⟨rfl, hbuffer⟩ := List.append_eq_nil_iff.mp hnil
    refine (if_neg fun hfirst => ?_).trans (h.nothing rfl)
    have hhead := hmagic hfirst.1 hfirst.2
    rw [hbuffer] at hhead
    cases hhead
  plain := fun _ => rfl
  firmware := fun hflash _ => h.stashed_flushed herased hprogrammed hskip hmagic calls hflash
  body := h.body_flushed herased hprogrammed hskip calls

/-- After a whole sector the update goes on as before. -/
theorem Session.session_flushed (h : Session board p done u) {erased programmed : List Op}
    (herased : Erases p u erased) (hprogrammed : Programs p u programmed)
    (hskip : u.skip ≤ u.buffer.length)
    (hmagic : u.progress = 0 → u.command = .flash → u.buffer.head? = some imageHeaderMagic)
    (calls : Nat) (hfull : u.buffer.length = sectorSize) :
    Session board p (done ++ u.buffer) (u.flushed (erased ++ programmed) calls) where
  toStored := h.stored_flushed herased hprogrammed hskip hmagic calls
  error := h.error
  size := h.size
  running := h.running
  sector := by
    rw [List.length_append, hfull]
    exact (Nat.dvd_add_right h.sector).mpr (Nat.dvd_refl _)
  buffer_le := Nat.zero_le _
  ahead := by
    have hahead := (h.erased herased).2.2
    unfold Ahead at *
    rw [List.length_append, hfull]
    intro hblock hhead htail i hi hi'
    rw [memory_flushed, programs_of_ge hprogrammed hskip (by rwa [h.progress, hfull, Nat.add_assoc])]
    exact hahead hblock hhead htail i hi hi'

/-- What `_writeBuffer` does in a running update: it ends it with an error, or
stores the buffer. -/
theorem writeBuffer_spec (h : Session board p done u) :
    (∃ (err : UpdateError) (v : Updater), err ≠ .ok ∧ v.partition = some p ∧
        writeBuffer board u = (false, v.abort err)) ∨
      ∃ v, writeBuffer board u = (true, v) ∧ Stored board p (done ++ u.buffer) v ∧
        v.buffer = [] ∧ v.command = u.command ∧ v.targetMd5 = u.targetMd5 ∧ v.boot = u.boot ∧
        v.error = .ok ∧ done.length + sectorSize ≤ p.size ∧
        (u.buffer.length = sectorSize → Session board p (done ++ u.buffer) v) := by
  rcases writeBuffer_cases board h.partition with ⟨err, v, herr, hv, -, hwrite⟩ | ⟨erased, programmed,
    calls, herased, hprogrammed, hskip, hmagic, hwrite⟩
  · exact .inl ⟨err, v, herr, hv, hwrite⟩
  · exact .inr ⟨u.flushed (erased ++ programmed) calls, hwrite,
      h.stored_flushed herased hprogrammed hskip hmagic calls, rfl, rfl, rfl, rfl, h.error,
      h.sector_fits herased, h.session_flushed herased hprogrammed hskip hmagic calls⟩

end writeBuffer

/-! ## 2. A whole update -/

section update

variable {board : Board} {p : Partition} {u : Updater} {done : Bytes}

theorem Session.setBuffer (h : Session board p done u) {buffer : Bytes}
    (hbuffer : buffer.length ≤ sectorSize) : Session board p done (u.setBuffer buffer) :=
  { h with
    buffer_le := hbuffer
    firmware := fun hflash hdone =>
      let hstash := h.firmware hflash hdone
      ⟨hstash.long, hstash.magic, hstash.skipBuffer, hstash.stub⟩ }

/-- Whole sectors go to the flash; what is left fits the buffer. -/
theorem fillLoop_spec (h : Session board p done u) {fuel : Nat} {data : Bytes}
    (hfuel : u.buffer.length + data.length ≤ sectorSize * fuel) :
    (∃ (err : UpdateError) (v : Updater) (left : Bytes), err ≠ .ok ∧
        fillLoop board fuel data u = ((false, left), v.abort err)) ∨
      ∃ v done' left, fillLoop board fuel data u = ((true, left), v) ∧ Session board p done' v ∧
        done' ++ v.buffer ++ left = done ++ u.buffer ++ data ∧ v.command = u.command ∧
        v.targetMd5 = u.targetMd5 ∧ v.buffer.length + left.length ≤ sectorSize ∧
        (data ≠ [] → left ≠ []) := by
  induction fuel generalizing u done data with
  | zero =>
    refine .inr ⟨u, done, data, rfl, h, rfl, rfl, rfl, ?_, id⟩
    exact Nat.le_trans hfuel (Nat.zero_le _)
  | succ fuel ih =>
    unfold fillLoop
    by_cases hfits : sectorSize < u.buffer.length + data.length
    · rw [if_pos hfits]
      generalize htoBuff : sectorSize - u.buffer.length = toBuff
      have hbuffer := h.buffer_le
      have hfull : (u.buffer ++ data.take toBuff).length = sectorSize := by
        rw [List.length_append, List.length_take]
        omega
      dsimp only
      rcases writeBuffer_spec (h.setBuffer (Nat.le_of_eq hfull)) with ⟨err, v, herr, -, hwrite⟩ |
        ⟨v, hwrite, -, hempty, hcommand, htarget, -, -, -, hnext⟩
      · rw [hwrite]
        exact .inl ⟨err, v, data, herr, rfl⟩
      · rw [hwrite, if_pos rfl]
        have hleft : v.buffer.length + (data.drop toBuff).length ≤ sectorSize * fuel := by
          rw [hempty, List.length_drop, List.length_nil]
          rw [Nat.mul_succ] at hfuel
          omega
        rcases ih (hnext hfull) hleft with hfail | ⟨w, done', left, hloop, hw, hdata, hwcommand, hwtarget,
          hwbuffer, hwleft⟩
        · exact .inl hfail
        · have hmore : data.drop toBuff ≠ [] := by
            rw [Ne, List.drop_eq_nil_iff]
            omega
          refine .inr ⟨w, done', left, hloop, hw, ?_, hwcommand.trans hcommand,
            hwtarget.trans htarget, hwbuffer, fun _ => hwleft hmore⟩
          rw [hdata, hempty]
          simp
    · rw [if_neg hfits]
      exact .inr ⟨u, done, data, rfl, h, rfl, rfl, rfl, Nat.not_lt.mp hfits, id⟩

/-- `write` takes all of the data, or ends the update with an error. -/
theorem write_spec (h : Session board p done u) (data : Bytes) :
    (∃ (err : UpdateError) (v : Updater), err ≠ .ok ∧ (write board data u).2 = v.abort err) ∨
      ∃ v done', write board data u = (data.length, v) ∧ Session board p done' v ∧
        done' ++ v.buffer = done ++ u.buffer ++ data ∧ v.command = u.command ∧
        v.targetMd5 = u.targetMd5 := by
  have hrunning : (u.hasError || !u.isRunning) = false := by
    simp [hasError, isRunning, h.error, h.size, h.running]
  have hfuel : u.buffer.length + data.length ≤ sectorSize * (data.length + 1) := by
    have hbuffer := h.buffer_le
    rw [sectorSize_eq] at *
    omega
  unfold write
  rw [if_neg (by simp [hrunning])]
  by_cases hspace : u.remaining < data.length
  · rw [if_pos hspace]
    exact .inl ⟨.space, u, by decide, rfl⟩
  rw [if_neg hspace]
  dsimp only
  rcases fillLoop_spec h hfuel with ⟨err, v, left, herr, hloop⟩ | ⟨v, done', left, hloop, hv, hdata,
    hcommand, htarget, hbuffer, -⟩
  · rw [hloop]
    exact .inl ⟨err, v, herr, rfl⟩
  rw [hloop, if_neg (by simp)]
  dsimp only
  generalize hbuf : v.buffer ++ left = buffer
  have hlength : buffer.length ≤ sectorSize := by rwa [← hbuf, List.length_append]
  have hfilled := hv.setBuffer hlength
  rw [List.append_assoc, hbuf] at hdata
  by_cases hlast : (v.setBuffer buffer).buffer.length = (v.setBuffer buffer).remaining
  · rw [if_pos hlast]
    rcases writeBuffer_spec hfilled with ⟨err, w, herr, -, hwrite⟩ | ⟨w, hwrite, -, hempty, hwcommand,
      hwtarget, -, -, hfits, hnext⟩
    · rw [hwrite]
      exact .inl ⟨err, w, herr, rfl⟩
    · rw [hwrite]
      -- what remains is a whole number of sectors
      have hfull : buffer.length = sectorSize := by
        obtain ⟨a, ha⟩ := p.size_dvd
        obtain ⟨k, hk⟩ := hv.sector
        have hremains : buffer.length = v.size - v.progress := hlast
        rw [hv.size, hv.progress] at hremains
        simp only [sectorSize_eq] at *
        omega
      refine .inr ⟨w, done' ++ buffer, rfl, hnext hfull, ?_, hwcommand.trans hcommand,
        hwtarget.trans htarget⟩
      rw [hempty, List.append_nil, hdata]
  · rw [if_neg hlast]
    exact .inr ⟨_, done', rfl, hfilled, hdata, hcommand, htarget⟩

/-- Bytes are held back only of an image with the magic byte. -/
theorem Stored.magic {image skipped : Bytes} (h : Stored board p image u) (hflash : u.command = .flash)
    (hskip : u.skipBuffer = some skipped) : image.head? = some imageHeaderMagic := by
  have hne : image ≠ [] := by
    intro hnil
    rw [h.nothing hnil] at hskip
    cases hskip
  exact (h.firmware hflash hne).magic

/-- Programming what was held back completes the image. -/
theorem Stored.completed {image skipped : Bytes} (h : Stored board p image u)
    (hflash : u.command = .flash) (hskip : u.skipBuffer = some skipped) :
    read ((Op.program (p.address + 0) skipped).apply (u.memory board)) p.address image.length =
      inFlash p .flash image := by
  have hne : image ≠ [] := by
    intro hnil
    rw [h.nothing hnil] at hskip
    cases hskip
  obtain ⟨hlong, -, hstash, hstub⟩ := h.firmware hflash hne
  obtain rfl : skipped = image.take encryptedBlockSize :=
    Option.some_inj.mp (hskip.symm.trans hstash)
  have htake : (image.take encryptedBlockSize).length = encryptedBlockSize :=
    List.length_take_of_le hlong
  have hlength : image.length = encryptedBlockSize + (image.length - encryptedBlockSize) :=
    (Nat.add_sub_of_le hlong).symm
  have hhead := read_program p.address (d := image.take encryptedBlockSize)
    (hstub.mono (Nat.le_refl _) (by rw [htake]))
  rw [htake] at hhead
  have hbody := h.body
  rw [hflash] at hbody
  have hparts : image.take encryptedBlockSize ++ (inFlash p .flash image).drop encryptedBlockSize =
      inFlash p .flash image := by
    rw [← take_inFlash p .flash image, List.take_append_drop]
  rw [hlength, read_append, Nat.add_zero, hhead]
  refine Eq.trans (congrArg (image.take encryptedBlockSize ++ ·) ?_) hparts
  refine Eq.trans (read_congr fun i hi _ => ?_) hbody
  refine (Op.program _ _).apply_of_ge ?_ _
  show p.address + (image.take encryptedBlockSize).length ≤ i
  rwa [htake]

/-- `end` after everything was stored. -/
theorem Stored.verifyEnd_spec {image : Bytes} (h : Stored board p image u) (herror : u.error = .ok)
    {ok : Bool} {v : Updater} (hend : u.verifyEnd board = (ok, v)) :
    (ok = false ∧ v.error ≠ .ok ∧ v.size = 0) ∨
      ok = true ∧ v.error = .ok ∧ v.size = 0 ∧ v.targetMd5 = u.targetMd5 ∧
        read (v.memory board) p.address image.length = inFlash p u.command image ∧
        (u.command = .flash → v.boot = u.boot ++ [p] ∧ image.head? = some imageHeaderMagic) := by
  rcases verifyEnd_cases board u with ⟨err, w, herr, hfail, -⟩ | ⟨hspiffs, hok⟩ |
    ⟨q, skipped, calls, hflash, hq, hskip, hok⟩
  · obtain ⟨rfl, rfl⟩ := Prod.mk.inj (hend.symm.trans hfail)
    exact .inl ⟨rfl, herr, rfl⟩
  · obtain ⟨rfl, rfl⟩ := Prod.mk.inj (hend.symm.trans hok)
    refine .inr ⟨rfl, herror, rfl, rfl, ?_, fun hflash => ?_⟩
    · have hbody := h.body
      rw [hspiffs] at hbody ⊢
      exact hbody
    · rw [hspiffs] at hflash
      cases hflash
  · obtain ⟨rfl, rfl⟩ := Prod.mk.inj (hend.symm.trans hok)
    obtain rfl : q = p := Option.some_inj.mp (hq.symm.trans h.partition)
    refine .inr ⟨rfl, herror, rfl, rfl, ?_, fun _ => ⟨?_, ?_⟩⟩
    · have hread := h.completed hflash hskip
      have hmemory : (u.driven [.program (q.address + 0) skipped] calls).booted.reset.memory board =
          (Op.program (q.address + 0) skipped).apply (u.memory board) := memory_driven u _ calls
      rw [hmemory, hflash]
      exact hread
    · show u.boot ++ u.partition.toList = _
      rw [hq]
      rfl
    · exact h.magic hflash hskip

/-- An update that ends well has left the bytes it was given in the partition. -/
structure Landed (board : Board) (p : Partition) (image : Bytes) (command : Command)
    (boot : List Partition) (v : Updater) : Prop where
  error : v.error = .ok
  size : v.size = 0
  fits : image.length ≤ p.size
  holds : read (v.memory board) p.address image.length = inFlash p command image
  boots : command = .flash → v.boot = boot ++ [p] ∧ image.head? = some imageHeaderMagic
  hashed : v.targetMd5 = [] ∨ v.targetMd5 = board.digest image

theorem Stored.shrink {image : Bytes} (h : Stored board p image u) :
    Stored board p image u.shrink :=
  { h with
    firmware := fun hflash hne =>
      let hstash := h.firmware hflash hne
      ⟨hstash.long, hstash.magic, hstash.skipBuffer, hstash.stub⟩ }

theorem Stored.finish_spec {image : Bytes} (h : Stored board p image u) (herror : u.error = .ok)
    {ok : Bool} {v : Updater} (hend : u.shrink.finish board = (ok, v)) :
    (ok = false ∧ v.error ≠ .ok ∧ v.size = 0) ∨
      ok = true ∧ Landed board p image u.command u.boot v := by
  unfold finish at hend
  split_ifs at hend with hmd5
  · obtain ⟨rfl, rfl⟩ := Prod.mk.inj hend
    exact .inl ⟨rfl, fun hok => (nomatch hok), rfl⟩
  · rcases h.shrink.verifyEnd_spec herror hend with hfail | ⟨hok, hverror, hsize, htarget, hread, hboot⟩
    · exact .inl hfail
    · refine .inr ⟨hok, hverror, hsize, h.fits, hread, hboot, ?_⟩
      rw [htarget, ← h.md5]
      exact Decidable.or_iff_not_not_and_not.mpr hmd5

/-- How a running update ends. -/
theorem end_spec (h : Session board p done u) {ok : Bool} {v : Updater}
    (hend : u.end_ board = (ok, v)) :
    (ok = false ∧ v.error ≠ .ok ∧ v.size = 0) ∨
      ok = true ∧ Landed board p (done ++ u.buffer) u.command u.boot v := by
  have hrunning : (u.hasError || decide (u.size = 0)) = false := by
    have hpos := h.running
    simp [hasError, h.error, h.size]
    omega
  unfold end_ at hend
  rw [if_neg (by simp [hrunning])] at hend
  dsimp only at hend
  by_cases hbuffer : u.buffer = []
  · rw [if_neg (not_not.mpr hbuffer)] at hend
    rw [hbuffer, List.append_nil]
    exact h.toStored.finish_spec h.error hend
  · rw [if_pos hbuffer] at hend
    rcases writeBuffer_spec h with ⟨err, w, herr, -, hwrite⟩ | ⟨w, hwrite, hstored, -, hcommand, -, hboot,
      herror, -, -⟩
    · rw [hwrite] at hend
      obtain ⟨err', x, herr', hfail, -⟩ := finish_abort board err w
      obtain ⟨rfl, rfl⟩ := Prod.mk.inj (hend.symm.trans hfail)
      exact .inl ⟨rfl, herr', rfl⟩
    · rw [hwrite] at hend
      rw [← hcommand, ← hboot]
      exact hstored.finish_spec herror hend

end update

end Updater

end Handheld
