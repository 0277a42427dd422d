import Handheld.Machine
import Handheld.NorFlash
import Handheld.ByteString

/-!
# The firmware update (`Update/src/Updater.cpp`)

`UpdateClass` collects an image in a buffer of one sector and writes it to the
partition that is not running. The first 16 bytes of a firmware are held back
until `end`, so that a half-written image has no magic byte. Sectors are erased
on the way: whole blocks at once where a block begins and the rest fills it,
single sectors in the blocks at the two ends.

Left out are decryption, for which the program sets no key, sizes other than
`UPDATE_SIZE_UNKNOWN`, the only one that the program passes, and allocations that
fail. A firmware of fewer than 16 bytes makes a length wrap around; here it is
refused. The calls of the flash driver check their range and alignment, and fail
in any pattern; a call that fails changes nothing.

Results: `writeBuffer_cases`, `verifyEnd_cases` and `finish_abort` say all that
the functions which touch the flash can do.
-/

namespace Handheld

open ByteString NorFlash

/-! ## Definitions -/

/-- `SPI_FLASH_SEC_SIZE`, `SPI_FLASH_BLOCK_SIZE`, `ENCRYPTED_BLOCK_SIZE`. -/
abbrev sectorSize : Nat := 4096
abbrev blockSize : Nat := 16 * sectorSize
abbrev encryptedBlockSize : Nat := 16

theorem sectorSize_eq : sectorSize = 4096 := rfl

theorem blockSize_eq : blockSize = 65536 := rfl

/-- `ESP_IMAGE_HEADER_MAGIC`. -/
def imageHeaderMagic : UInt8 := 0xE9

structure Partition where
  address : Nat
  size : Nat
  encrypted : Bool
  address_dvd : sectorSize ∣ address
  size_dvd : sectorSize ∣ size
deriving DecidableEq

/-- The two partitions share no byte. -/
def Partition.Disjoint (p q : Partition) : Prop :=
  p.address + p.size ≤ q.address ∨ q.address + q.size ≤ p.address

/-- `U_FLASH` and `U_SPIFFS`. -/
inductive Command
  | flash
  | spiffs
deriving DecidableEq, Repr

/-- The codes that this part of `Updater.cpp` sets. -/
inductive UpdateError
  | ok
  | write
  | erase
  | read
  | space
  | md5
  | magicByte
  | activate
  | noPartition
  | abort
  | decrypt
deriving DecidableEq, Repr

/-- What surrounds the updater: the partition table, the flash at power-on,
whether the `n`-th call of the flash driver succeeds, and `MD5Builder`. -/
structure Board where
  nextUpdate : Option Partition
  spiffs : Option Partition
  fat : Option Partition
  disjoint : ∀ p, nextUpdate = some p → ∀ q, spiffs = some q ∨ fat = some q → p.Disjoint q
  contents : Memory
  ok : Nat → Bool
  digest : Bytes → Bytes

/-- `UpdateClass`, with the history of the flash, the partitions that were made
the boot partition, and the calls of the flash driver so far. The buffer is its
filled part. -/
structure Updater where
  error : UpdateError
  size : Nat
  progress : Nat
  buffer : Bytes
  skipBuffer : Option Bytes
  command : Command
  partition : Option Partition
  targetMd5 : Bytes
  md5 : Bytes
  decrypting : Bool
  ops : List Op
  boot : List Partition
  calls : Nat

def Updater.powerOn : Updater where
  error := .ok
  size := 0
  progress := 0
  buffer := []
  skipBuffer := none
  command := .flash
  partition := none
  targetMd5 := []
  md5 := []
  decrypting := false
  ops := []
  boot := []
  calls := 0

namespace Updater

def hasError (u : Updater) : Bool := u.error ≠ .ok

def isRunning (u : Updater) : Bool := 0 < u.size

def remaining (u : Updater) : Nat := u.size - u.progress

def setBuffer (buffer : Bytes) (u : Updater) : Updater := { u with buffer := buffer }

@[simp] theorem setBuffer_buffer (buffer : Bytes) (u : Updater) :
    (u.setBuffer buffer).buffer = buffer := rfl

/-- `_reset`. -/
def reset (u : Updater) : Updater :=
  { u with buffer := [], skipBuffer := none, progress := 0, size := 0, command := .flash }

/-- `_abort`. -/
def abort (err : UpdateError) (u : Updater) : Updater := { u.reset with error := err }

/-- `setMD5`. -/
def setMD5 (expected : Bytes) (u : Updater) : Bool × Updater :=
  if (cstr expected).length = 32 then (true, { u with targetMd5 := (cstr expected).map toLower })
  else (false, u)

variable (board : Board)

/-- The partition that `begin` chooses. -/
def findPartition : Command → Option Partition
  | .flash => board.nextUpdate
  | .spiffs => board.spiffs.or board.fat

/-- `begin(UPDATE_SIZE_UNKNOWN, command)`. -/
def begin_ (command : Command) (u : Updater) : Bool × Updater :=
  if 0 < u.size then (false, u)
  else
    let u := { u.reset with error := .ok, targetMd5 := [], md5 := [] }
    match findPartition board command with
    | none => (false, { u with partition := none, error := .noPartition })
    | some p => (true, { u with partition := some p, size := p.size, command := command })

/-- A call of the flash driver. -/
def driverCall (valid : Bool) (ops : List Op) (u : Updater) : Bool × Updater :=
  let done := valid && board.ok u.calls
  (done, { u with ops := if done then u.ops ++ ops else u.ops, calls := u.calls + 1 })

/-- `ESP.partitionEraseRange`. -/
def partitionEraseRange (p : Partition) (offset length : Nat) (u : Updater) : Bool × Updater :=
  driverCall board
    (offset % sectorSize = 0 ∧ length % sectorSize = 0 ∧ offset + length ≤ p.size)
    [.erase (p.address + offset) length] u

/-- `ESP.partitionWrite`. -/
def partitionWrite (p : Partition) (offset : Nat) (data : Bytes) (u : Updater) : Bool × Updater :=
  driverCall board (offset + data.length ≤ p.size) [.program (p.address + offset) data] u

/-- The flash as it is now. -/
def memory (u : Updater) : Memory := replay board.contents u.ops

/-- `_chkDataInBlock`: not all ones, as far as only whole words are looked at. -/
def chkDataInBlock (data : Bytes) : Bool :=
  data.length = 0 || data.length % 4 ≠ 0 || data.any (· != blank)

/-- The bytes at the front that are held back. -/
def skip (u : Updater) : Nat :=
  if u.progress = 0 ∧ u.command = .flash then encryptedBlockSize else 0

/-- The whole block from here is erased. -/
def blockErase (p : Partition) (u : Updater) : Bool :=
  blockSize ≤ u.remaining ∧ (p.address + u.progress) % blockSize = 0

/-- The sector lies in a block that the partition shares at its start. -/
def partHeadSectors (p : Partition) (u : Updater) : Bool :=
  p.address % blockSize ≠ 0 ∧ p.address + u.progress < (p.address / blockSize + 1) * blockSize

/-- The sector lies in the block where the partition ends. -/
def partTailSectors (p : Partition) (u : Updater) : Bool :=
  (p.address + u.size) / blockSize * blockSize ≤ p.address + u.progress

def eraseAhead (p : Partition) (u : Updater) : Bool × Updater :=
  if u.blockErase p || u.partHeadSectors p || u.partTailSectors p then
    partitionEraseRange board p u.progress (if u.blockErase p then blockSize else sectorSize) u
  else (true, u)

/-- The buffer goes to the flash, unless it is empty as far as the check sees.
The check starts at a quarter of the bytes that are held back. -/
def flushBuffer (p : Partition) (u : Updater) : Bool × Updater :=
  let length := u.buffer.length - u.skip
  if p.encrypted || chkDataInBlock ((u.buffer.drop (u.skip / 4)).take length) then
    partitionWrite board p (u.progress + u.skip) (u.buffer.drop u.skip) u
  else (true, u)

/-- The buffer does not begin with the magic byte that a firmware needs. -/
def noMagic (u : Updater) : Bool :=
  u.command = .flash ∧ u.buffer.head? ≠ some imageHeaderMagic

/-- At the start of an image it is settled whether it is encrypted. -/
def settleDecrypting (u : Updater) : Updater :=
  { u with decrypting := if u.progress = 0 then u.noMagic else u.decrypting }

/-- The first bytes of a firmware are stashed. -/
def stash (u : Updater) : Updater :=
  { u with
    skipBuffer :=
      if u.progress = 0 ∧ u.command = .flash then some (u.buffer.take encryptedBlockSize)
      else u.skipBuffer }

/-- `_writeBuffer`. -/
def writeBuffer (u : Updater) : Bool × Updater :=
  match u.partition with
  | none => (false, u)
  | some p =>
    let u := u.settleDecrypting
    if u.decrypting then (false, u.abort .decrypt) -- no key is set
    else if u.progress = 0 && u.noMagic then (false, u.abort .magicByte)
    else
      let erased := u.stash.eraseAhead board p
      if !erased.1 then (false, erased.2.abort .erase)
      else if u.buffer.length < u.skip then (false, erased.2.abort .write) -- the length wraps around
      else
        let flushed := erased.2.flushBuffer board p
        if !flushed.1 then (false, flushed.2.abort .write)
        else
          let u := flushed.2
          (true, { u with
            md5 := u.md5 ++ u.buffer
            progress := u.progress + u.buffer.length
            buffer := [] })

/-- The loop of `write`: as long as the data overfills the buffer. Every turn but
the first takes a whole sector, so that the length bounds the turns. Answers
what is left of the data. -/
def fillLoop : Nat → Bytes → Updater → (Bool × Bytes) × Updater
  | 0, data, u => ((true, data), u)
  | fuel + 1, data, u =>
    if sectorSize < u.buffer.length + data.length then
      let toBuff := sectorSize - u.buffer.length
      let flushed := (u.setBuffer (u.buffer ++ data.take toBuff)).writeBuffer board
      if flushed.1 then fillLoop fuel (data.drop toBuff) flushed.2 else ((false, data), flushed.2)
    else ((true, data), u)

/-- `write(data, len)`, which answers how many bytes it took. -/
def write (data : Bytes) (u : Updater) : Nat × Updater :=
  if u.hasError || !u.isRunning then (0, u)
  else if u.remaining < data.length then (0, u.abort .space)
  else
    let filled := fillLoop board (data.length + 1) data u
    let left := filled.1.2
    if !filled.1.1 then (data.length - left.length, filled.2)
    else
      let u := filled.2.setBuffer (filled.2.buffer ++ left)
      if u.buffer.length = u.remaining then
        let flushed := u.writeBuffer board
        (if flushed.1 then data.length else data.length - left.length, flushed.2)
      else (data.length, u)

/-- `_enablePartition`: the bytes that were held back. A null pointer is refused. -/
def enablePartition (u : Updater) : Bool × Updater :=
  match u.partition, u.skipBuffer with
  | some p, some skipped => partitionWrite board p 0 skipped u
  | some _, none => driverCall board false [] u
  | none, _ => (false, u)

/-- `_partitionIsBootable`. -/
def partitionIsBootable (u : Updater) : Bool × Updater :=
  match u.partition with
  | none => (false, u)
  | some p =>
    let read := driverCall board true [] u
    (read.1 && u.memory board p.address == imageHeaderMagic, read.2)

/-- The partition of the update becomes the boot partition. -/
def booted (u : Updater) : Updater := { u with boot := u.boot ++ u.partition.toList }

/-- `esp_ota_set_boot_partition`. -/
def setBootPartition (u : Updater) : Bool × Updater :=
  let set := driverCall board true [] u
  (set.1, if set.1 then set.2.booted else set.2)

/-- `_verifyEnd`. -/
def verifyEnd (u : Updater) : Bool × Updater :=
  match u.command with
  | .spiffs => (true, u.reset)
  | .flash =>
    let enabled := u.enablePartition board
    if !enabled.1 then (false, enabled.2.abort .read)
    else
      let bootable := enabled.2.partitionIsBootable board
      if !bootable.1 then (false, bootable.2.abort .read)
      else
        let set := bootable.2.setBootPartition board
        if !set.1 then (false, set.2.abort .activate) else (true, set.2.reset)

/-- `_size = progress()`. -/
def shrink (u : Updater) : Updater := { u with size := u.progress }

/-- `end` after the last write. -/
def finish (u : Updater) : Bool × Updater :=
  if u.targetMd5 ≠ [] ∧ u.targetMd5 ≠ board.digest u.md5 then (false, u.abort .md5)
  else u.verifyEnd board

/-- `end(true)`. -/
def end_ (u : Updater) : Bool × Updater :=
  if u.hasError || u.size = 0 then (false, u)
  else
    let u := if u.buffer ≠ [] then (u.writeBuffer board).2 else u
    u.shrink.finish board

/-! ## What each function can do -/

section cases

variable {board : Board} {p : Partition} {u : Updater}

/-- After calls of the flash driver that did these operations. -/
def driven (u : Updater) (ops : List Op) (calls : Nat) : Updater :=
  { u with ops := u.ops ++ ops, calls := calls }

/-- After calls of the flash driver that failed. -/
def called (u : Updater) (calls : Nat) : Updater := { u with calls := calls }

theorem driverCall_cases (board : Board) (valid : Bool) (ops : List Op) (u : Updater) :
    (∃ calls, driverCall board valid ops u = (false, u.called calls)) ∨
      valid = true ∧ ∃ calls, driverCall board valid ops u = (true, u.driven ops calls) := by
  unfold driverCall
  cases valid with
  | false => exact .inl ⟨_, rfl⟩
  | true =>
    cases board.ok u.calls with
    | false => exact .inl ⟨_, rfl⟩
    | true => exact .inr ⟨rfl, _, rfl⟩

/-- A call that does not change the flash. -/
theorem driverCall_nil (board : Board) (valid : Bool) (u : Updater) :
    (driverCall board valid [] u).2 = u.called (u.calls + 1) := by
  unfold driverCall called
  simp

/-- What `_writeBuffer` erases before it writes. -/
inductive Erases (p : Partition) (u : Updater) : List Op → Prop
  | none (hblock : u.blockErase p = false) (hhead : u.partHeadSectors p = false)
      (htail : u.partTailSectors p = false) : Erases p u []
  | block (hblock : u.blockErase p = true) (hfit : u.progress + blockSize ≤ p.size) :
      Erases p u [.erase (p.address + u.progress) blockSize]
  | sector (hblock : u.blockErase p = false)
      (hend : u.partHeadSectors p = true ∨ u.partTailSectors p = true)
      (hfit : u.progress + sectorSize ≤ p.size) :
      Erases p u [.erase (p.address + u.progress) sectorSize]

theorem eraseAhead_cases (board : Board) (p : Partition) (u : Updater) :
    (∃ calls, eraseAhead board p u = (false, u.called calls)) ∨
      ∃ ops calls, Erases p u ops ∧ eraseAhead board p u = (true, u.driven ops calls) := by
  unfold eraseAhead
  cases hblock : u.blockErase p with
  | true =>
    rw [if_pos (by simp), if_pos rfl]
    unfold partitionEraseRange
    rcases driverCall_cases board _ [.erase (p.address + u.progress) blockSize] u with h | ⟨hv, calls, h⟩
    · exact .inl h
    · exact .inr ⟨_, calls, .block hblock (of_decide_eq_true hv).2.2, h⟩
  | false =>
    by_cases hend : u.partHeadSectors p = true ∨ u.partTailSectors p = true
    · rw [if_pos (by simpa using hend), if_neg (by simp)]
      unfold partitionEraseRange
      rcases driverCall_cases board _ [.erase (p.address + u.progress) sectorSize] u with
        h | ⟨hv, calls, h⟩
      · exact .inl h
      · exact .inr ⟨_, calls, .sector hblock hend (of_decide_eq_true hv).2.2, h⟩
    · rw [if_neg (by simpa using hend)]
      rw [not_or, Bool.not_eq_true, Bool.not_eq_true] at hend
      exact .inr ⟨[], u.calls, .none hblock hend.1 hend.2, by simp [driven]⟩

/-- What `_writeBuffer` programs. -/
inductive Programs (p : Partition) (u : Updater) : List Op → Prop
  | none (hplain : p.encrypted = false)
      (hcheck : chkDataInBlock ((u.buffer.drop (u.skip / 4)).take (u.buffer.length - u.skip)) = false) :
      Programs p u []
  | data (hcheck : (p.encrypted ||
        chkDataInBlock ((u.buffer.drop (u.skip / 4)).take (u.buffer.length - u.skip))) = true)
      (hfit : u.progress + u.skip + (u.buffer.drop u.skip).length ≤ p.size) :
      Programs p u [.program (p.address + (u.progress + u.skip)) (u.buffer.drop u.skip)]

theorem flushBuffer_cases (board : Board) (p : Partition) (u : Updater) :
    (∃ calls, flushBuffer board p u = (false, u.called calls)) ∨
      ∃ ops calls, Programs p u ops ∧ flushBuffer board p u = (true, u.driven ops calls) := by
  unfold flushBuffer
  dsimp only
  split_ifs with hcheck
  · unfold partitionWrite
    rcases driverCall_cases board _
      [.program (p.address + (u.progress + u.skip)) (u.buffer.drop u.skip)] u with h | ⟨hv, calls, h⟩
    · exact .inl h
    · exact .inr ⟨_, calls, .data hcheck (of_decide_eq_true hv), h⟩
  · rw [Bool.or_eq_true, not_or, Bool.not_eq_true, Bool.not_eq_true] at hcheck
    exact .inr ⟨[], u.calls, .none hcheck.1 hcheck.2, by simp [driven]⟩

/-- The state after `_writeBuffer` succeeded with these operations. -/
def flushed (u : Updater) (ops : List Op) (calls : Nat) : Updater :=
  { u with
    decrypting := false
    skipBuffer :=
      if u.progress = 0 ∧ u.command = .flash then some (u.buffer.take encryptedBlockSize)
      else u.skipBuffer
    md5 := u.md5 ++ u.buffer
    progress := u.progress + u.buffer.length
    buffer := []
    ops := u.ops ++ ops
    calls := calls }

/-- All that `_writeBuffer` can do. -/
theorem writeBuffer_cases (board : Board) (hp : u.partition = some p) :
    (∃ (err : UpdateError) (v : Updater), err ≠ .ok ∧ v.partition = some p ∧
        (v.ops = u.ops ∨ ∃ ops, Erases p u ops ∧ v.ops = u.ops ++ ops) ∧
        writeBuffer board u = (false, v.abort err)) ∨
      ∃ erased programmed calls, Erases p u erased ∧ Programs p u programmed ∧
        u.skip ≤ u.buffer.length ∧
        (u.progress = 0 → u.command = .flash → u.buffer.head? = some imageHeaderMagic) ∧
        writeBuffer board u = (true, u.flushed (erased ++ programmed) calls) := by
  unfold writeBuffer
  rw [hp]
  dsimp only
  by_cases hdecrypting : u.settleDecrypting.decrypting = true
  · rw [if_pos hdecrypting]
    exact .inl ⟨.decrypt, u.settleDecrypting, by decide, hp, .inl rfl, rfl⟩
  rw [if_neg hdecrypting]
  by_cases hmagic : (decide (u.settleDecrypting.progress = 0) && u.settleDecrypting.noMagic) = true
  · rw [if_pos hmagic]
    exact .inl ⟨.magicByte, u.settleDecrypting, by decide, hp, .inl rfl, rfl⟩
  rw [if_neg hmagic]
  rcases eraseAhead_cases board p u.settleDecrypting.stash with ⟨calls, h⟩ | ⟨erased, calls, herased, h⟩
  · rw [h]
    exact .inl ⟨.erase, u.settleDecrypting.stash.called calls, by decide, hp, .inl rfl, rfl⟩
  have herased' : Erases p u erased := by
    cases herased with
    | none hblock hhead htail => exact .none hblock hhead htail
    | block hblock hfit => exact .block hblock hfit
    | sector hblock hend hfit => exact .sector hblock hend hfit
  rw [h, if_neg (by simp)]
  by_cases hshort : u.settleDecrypting.buffer.length < u.settleDecrypting.skip
  · rw [if_pos hshort]
    exact .inl ⟨.write, u.settleDecrypting.stash.driven erased calls, by decide, hp,
      .inr ⟨erased, herased', rfl⟩, rfl⟩
  rw [if_neg hshort]
  rcases flushBuffer_cases board p (u.settleDecrypting.stash.driven erased calls) with
    ⟨calls', h'⟩ | ⟨programmed, calls', hprogrammed, h'⟩
  · rw [h']
    exact .inl ⟨.write, (u.settleDecrypting.stash.driven erased calls).called calls', by decide, hp,
      .inr ⟨erased, herased', rfl⟩, rfl⟩
  have hprogrammed' : Programs p u programmed := by
    cases hprogrammed with
    | none hplain hcheck => exact .none hplain hcheck
    | data hcheck hfit => exact .data hcheck hfit
  have hfirst : u.progress = 0 → u.noMagic = false := fun h0 => by
    simpa [settleDecrypting, h0] using hdecrypting
  rw [h', if_neg (by simp)]
  refine .inr ⟨erased, programmed, calls', herased', hprogrammed', Nat.not_lt.mp hshort,
    fun h0 hflash => ?_, ?_⟩
  · have h := hfirst h0
    unfold noMagic at h
    by_contra hne
    exact absurd h (by simp [hflash, hne])
  · have hfalse : u.settleDecrypting.decrypting = false := by simpa using hdecrypting
    unfold flushed
    rw [← List.append_assoc, ← hfalse]
    rfl

/-- What `_verifyEnd` does: it may program what was held back, and does so when
the update succeeds. -/
theorem verifyEnd_cases (board : Board) (u : Updater) :
    (∃ (err : UpdateError) (v : Updater), err ≠ .ok ∧ verifyEnd board u = (false, v.abort err) ∧
        (v.ops = u.ops ∨ ∃ p skipped, u.command = .flash ∧ u.partition = some p ∧
          u.skipBuffer = some skipped ∧ v.ops = u.ops ++ [.program (p.address + 0) skipped])) ∨
      u.command = .spiffs ∧ verifyEnd board u = (true, u.reset) ∨
      ∃ p skipped calls, u.command = .flash ∧ u.partition = some p ∧ u.skipBuffer = some skipped ∧
        verifyEnd board u =
          (true, (u.driven [.program (p.address + 0) skipped] calls).booted.reset) := by
  unfold verifyEnd
  cases hcommand : u.command with
  | spiffs => exact .inr (.inl ⟨rfl, rfl⟩)
  | flash =>
    dsimp only
    cases hp : u.partition with
    | none =>
      have henable : u.enablePartition board = (false, u) := by
        unfold enablePartition
        rw [hp]
      rw [henable]
      exact .inl ⟨.read, u, by decide, rfl, .inl rfl⟩
    | some p =>
      cases hskip : u.skipBuffer with
      | none =>
        have henable : u.enablePartition board = driverCall board false [] u := by
          unfold enablePartition
          rw [hp, hskip]
        rcases driverCall_cases board false [] u with ⟨calls, h⟩ | ⟨hfalse, -⟩
        · rw [henable, h]
          exact .inl ⟨.read, u.called calls, by decide, rfl, .inl rfl⟩
        · cases hfalse
      | some skipped =>
        have henable : u.enablePartition board = partitionWrite board p 0 skipped u := by
          unfold enablePartition
          rw [hp, hskip]
        rw [henable]
        unfold partitionWrite
        rcases driverCall_cases board (decide (0 + skipped.length ≤ p.size))
          [.program (p.address + 0) skipped] u with ⟨calls, h⟩ | ⟨-, calls, h⟩
        · rw [h]
          exact .inl ⟨.read, u.called calls, by decide, rfl, .inl rfl⟩
        rw [h, if_neg (by simp)]
        generalize hw : u.driven [.program (p.address + 0) skipped] calls = w
        have hprogrammed : w.ops = u.ops ++ [.program (p.address + 0) skipped] := by
          rw [← hw]
          rfl
        have hwp : w.partition = some p := by
          rw [← hw]
          exact hp
        have hread : (w.partitionIsBootable board).2 = w.called (w.calls + 1) := by
          unfold partitionIsBootable
          rw [hwp]
          exact driverCall_nil board true w
        dsimp only
        rw [hread]
        by_cases hbootable : (w.partitionIsBootable board).1 = true
        · rw [if_neg (by simp [hbootable])]
          unfold setBootPartition
          dsimp only
          rw [driverCall_nil]
          by_cases hset : (driverCall board true [] (w.called (w.calls + 1))).1 = true
          · rw [if_neg (by simp [hset]), if_pos hset]
            rw [← hw]
            exact .inr (.inr ⟨p, skipped, calls + 1 + 1, rfl, rfl, rfl, rfl⟩)
          · rw [if_pos (by simpa using hset), if_neg hset]
            exact .inl ⟨.activate, _, by decide, rfl, .inr ⟨p, skipped, rfl, rfl, rfl, hprogrammed⟩⟩
        · rw [if_pos (by simpa using hbootable)]
          exact .inl ⟨.read, _, by decide, rfl, .inr ⟨p, skipped, rfl, rfl, rfl, hprogrammed⟩⟩

/-- After an error nothing is enabled. -/
theorem finish_abort (board : Board) (err : UpdateError) (v : Updater) :
    ∃ (err' : UpdateError) (w : Updater), err' ≠ .ok ∧
      (v.abort err).shrink.finish board = (false, w.abort err') ∧ w.ops = v.ops := by
  unfold finish
  split_ifs
  · exact ⟨.md5, _, by decide, rfl, rfl⟩
  · rcases verifyEnd_cases board (v.abort err).shrink with
      ⟨err', w, herr, hfail, hops⟩ | ⟨hspiffs, -⟩ | ⟨q, skipped, calls, -, -, hskip, -⟩
    · refine ⟨err', w, herr, hfail, ?_⟩
      rcases hops with hops | ⟨q, skipped, -, -, hskip, -⟩
      · exact hops
      · cases hskip
    · cases hspiffs
    · cases hskip

end cases

end Updater

end Handheld
