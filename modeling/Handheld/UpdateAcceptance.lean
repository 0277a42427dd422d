import Handheld.UpdateSafety

/-!
# What the updater accepts

The flash works: every call of its driver that is within range succeeds.

Results:
1. `writeBuffer_works`: a buffer is stored unless it is the first of a firmware
   and lacks the magic byte.
2. `write_works`, `end_works`: an update of an acceptable image does not fail.
-/

namespace Handheld

open ByteString NorFlash

/-! ## Definitions -/

/-- Every valid call of the flash driver succeeds. -/
def Works (board : Board) : Prop := ∀ n, board.ok n = true

/-- What the updater asks of an image. -/
structure Acceptable (p : Partition) (command : Command) (image : Bytes) : Prop where
  fits : image.length ≤ p.size
  magic : command = .flash → image.head? = some imageHeaderMagic
  long : command = .flash → encryptedBlockSize ≤ image.length

namespace Updater

section works

variable {board : Board} {p : Partition} {u : Updater} {done : Bytes}

/-! ## 1. One buffer -/

theorem driverCall_works (hworks : Works board) {valid : Bool} (hvalid : valid = true)
    (ops : List Op) (u : Updater) : (driverCall board valid ops u).1 = true := by
  show (valid && board.ok u.calls) = true
  rw [hvalid, hworks]
  rfl

theorem eraseAhead_works (hworks : Works board) (hsize : u.size = p.size)
    (hsector : sectorSize ∣ u.progress) (hroom : u.progress + sectorSize ≤ p.size) :
    (u.eraseAhead board p).1 = true := by
  have hstart : u.progress % sectorSize = 0 := Nat.mod_eq_zero_of_dvd hsector
  unfold eraseAhead
  split_ifs with herase hblock
  · refine driverCall_works hworks (decide_eq_true ⟨hstart, by decide, ?_⟩) _ _
    have hremaining := (blockErase_eq_true.mp hblock).1
    rw [blockSize_eq]
    omega
  · exact driverCall_works hworks (decide_eq_true ⟨hstart, by decide, hroom⟩) _ _
  · rfl

theorem flushBuffer_works (hworks : Works board)
    (hfit : u.progress + u.skip + (u.buffer.drop u.skip).length ≤ p.size) :
    (u.flushBuffer board p).1 = true := by
  unfold flushBuffer
  dsimp only
  split_ifs
  · exact driverCall_works hworks (decide_eq_true hfit) _ _
  · rfl

/-- The image is not taken for an encrypted one. -/
theorem Session.not_decrypting (h : Session board p done u)
    (hmagic : done = [] → u.command = .flash → u.buffer.head? = some imageHeaderMagic) :
    u.settleDecrypting.decrypting = false ∧
      (decide (u.settleDecrypting.progress = 0) && u.settleDecrypting.noMagic) = false := by
  have hfirst : u.progress = 0 → u.noMagic = false := by
    intro h0
    have hdone : done = [] := List.length_eq_zero_iff.mp (h.progress.symm.trans h0)
    unfold noMagic
    simpa using hmagic hdone
  constructor
  · show (if u.progress = 0 then u.noMagic else u.decrypting) = false
    split_ifs with h0
    · exact hfirst h0
    · exact h.plain fun hdone => h0 (by rw [h.progress, hdone]; rfl)
  · refine Bool.and_eq_false_imp.mpr fun h0 => ?_
    exact hfirst (of_decide_eq_true h0)

theorem Session.room (h : Session board p done u) (hroom : done.length < p.size) :
    done.length + sectorSize ≤ p.size := by
  obtain ⟨k, hk⟩ := h.sector
  obtain ⟨n, hn⟩ := p.size_dvd
  simp only [sectorSize_eq] at *
  omega

theorem writeBuffer_works (hworks : Works board) (h : Session board p done u)
    (hroom : done.length < p.size) (hfit : done.length + u.buffer.length ≤ p.size)
    (hmagic : done = [] → u.command = .flash → u.buffer.head? = some imageHeaderMagic)
    (hlong : done = [] → u.command = .flash → encryptedBlockSize ≤ u.buffer.length) :
    (u.writeBuffer board).1 = true := by
  obtain ⟨hplain, hheader⟩ := h.not_decrypting hmagic
  have hskip : u.skip ≤ u.buffer.length := by
    rw [skip_eq h.progress]
    split_ifs with hdone
    · cases hcommand : u.command with
      | flash => exact hlong hdone hcommand
      | spiffs => exact Nat.zero_le _
    · exact Nat.zero_le _
  have herase : (u.settleDecrypting.stash.eraseAhead board p).1 = true := by
    have hprogress : u.settleDecrypting.stash.progress = done.length := h.progress
    refine eraseAhead_works hworks h.size ?_ ?_ <;> rw [hprogress]
    · exact h.sector
    · exact h.room hroom
  unfold writeBuffer
  rw [h.partition]
  dsimp only
  rw [if_neg (by simp [hplain]), if_neg (by simp [hheader])]
  rcases eraseAhead_cases board p u.settleDecrypting.stash with ⟨calls, hfail⟩ | ⟨ops, calls, -, hok⟩
  · rw [hfail] at herase
    cases herase
  have hflush : ((u.settleDecrypting.stash.driven ops calls).flushBuffer board p).1 = true := by
    refine flushBuffer_works hworks ?_
    show u.progress + u.skip + (u.buffer.drop u.skip).length ≤ p.size
    rw [List.length_drop, h.progress]
    omega
  have hlength : ¬ u.settleDecrypting.buffer.length < u.settleDecrypting.skip := Nat.not_lt.mpr hskip
  rw [hok, if_neg (by simp), if_neg hlength, if_neg (by simp [hflush])]

/-! ## 2. A whole image -/

theorem head_eq_of_begins {x image : Bytes} (h : x <+: image) (hne : x ≠ []) : x.head? = image.head? := by
  obtain ⟨rest, rfl⟩ := h
  rw [List.head?_append_of_ne_nil _ hne]

/-- A full buffer of an acceptable image. -/
theorem Session.sector_works (hworks : Works board) (h : Session board p done u) {image : Bytes}
    (himage : Acceptable p u.command image) (hbegins : done ++ u.buffer <+: image)
    (hfull : u.buffer.length = sectorSize) : (u.writeBuffer board).1 = true := by
  have hfit : done.length + u.buffer.length ≤ p.size := by
    rw [← List.length_append]
    exact Nat.le_trans hbegins.length_le himage.fits
  have hpos : 0 < u.buffer.length := by
    rw [hfull]
    decide
  refine writeBuffer_works hworks h (by omega) hfit (fun hdone hflash => ?_) fun _ _ => ?_
  · rw [hdone, List.nil_append] at hbegins
    rw [head_eq_of_begins hbegins (List.length_pos_iff.mp hpos)]
    exact himage.magic hflash
  · rw [hfull]
    decide

theorem fillLoop_works (hworks : Works board) (h : Session board p done u) {image : Bytes}
    (himage : Acceptable p u.command image) (fuel : Nat) {data : Bytes}
    (hbegins : done ++ u.buffer ++ data <+: image) : (u.fillLoop board fuel data).1.1 = true := by
  induction fuel generalizing u done data with
  | zero => rfl
  | succ fuel ih =>
    unfold fillLoop
    by_cases hfits : sectorSize < u.buffer.length + data.length
    · rw [if_pos hfits]
      generalize htoBuff : sectorSize - u.buffer.length = toBuff
      have hbuffer := h.buffer_le
      have hfull : (u.buffer ++ data.take toBuff).length = sectorSize := by
        rw [List.length_append, List.length_take]
        omega
      have hfilled := h.setBuffer (Nat.le_of_eq hfull)
      have hdata : done ++ (u.buffer ++ data.take toBuff) ++ data.drop toBuff <+: image := by
        simpa [List.append_assoc] using hbegins
      have hsame : Acceptable p (u.setBuffer (u.buffer ++ data.take toBuff)).command image := himage
      have hflush := hfilled.sector_works hworks hsame ((List.prefix_append _ _).trans hdata) hfull
      dsimp only
      rw [if_pos hflush]
      rcases writeBuffer_spec hfilled with ⟨err, v, -, -, hwrite⟩ | ⟨v, hwrite, -, hempty, hcommand, -,
        -, -, -, hnext⟩
      · rw [hwrite] at hflush
        cases hflush
      · rw [hwrite]
        refine ih (hnext hfull) ?_ ?_
        · rw [hcommand]
          exact himage
        · rw [hempty, List.append_nil]
          exact hdata
    · rw [if_neg hfits]

/-- The last buffer of a partition is full. -/
theorem Session.last_sector (h : Session board p done u) (hne : u.buffer ≠ [])
    (hremains : u.buffer.length = u.remaining) : u.buffer.length = sectorSize := by
  obtain ⟨k, hk⟩ := h.sector
  obtain ⟨n, hn⟩ := p.size_dvd
  have hpos := List.length_pos_iff.mpr hne
  have hbuffer := h.buffer_le
  unfold remaining at hremains
  rw [h.size, h.progress] at hremains
  simp only [sectorSize_eq] at *
  omega

theorem Session.running_eq (h : Session board p done u) : (u.hasError || !u.isRunning) = false := by
  simp [hasError, isRunning, h.error, h.size, h.running]

/-- Data of an acceptable image is taken. -/
theorem write_works (hworks : Works board) (h : Session board p done u) {image data : Bytes}
    (hdata : data ≠ []) (himage : Acceptable p u.command image)
    (hbegins : done ++ u.buffer ++ data <+: image) : (u.write board data).2.error = .ok := by
  have hloop := fillLoop_works hworks h himage (data.length + 1) hbegins
  have hfuel : u.buffer.length + data.length ≤ sectorSize * (data.length + 1) := by
    have hbuffer := h.buffer_le
    rw [sectorSize_eq] at *
    omega
  have hspace : ¬ u.remaining < data.length := by
    have hlength := Nat.le_trans hbegins.length_le himage.fits
    unfold remaining
    rw [h.size, h.progress]
    simp only [List.length_append] at hlength
    omega
  unfold write
  rw [if_neg (by simp [h.running_eq]), if_neg hspace]
  dsimp only
  rcases fillLoop_spec h hfuel with ⟨err, v, left, -, hfail⟩ | ⟨v, done', left, hok, hv, htaken,
    hcommand, -, hbuffer, hleft⟩
  · rw [hfail] at hloop
    cases hloop
  rw [hok, if_neg (by simp)]
  dsimp only
  have hlast : Session board p done' (v.setBuffer (v.buffer ++ left)) :=
    hv.setBuffer (by rwa [List.length_append])
  have hkept : done' ++ (v.setBuffer (v.buffer ++ left)).buffer <+: image := by
    rw [setBuffer_buffer, ← List.append_assoc, htaken]
    exact hbegins
  have hcommand' : (v.setBuffer (v.buffer ++ left)).command = u.command := hcommand
  have hne : (v.setBuffer (v.buffer ++ left)).buffer ≠ [] := fun hnil =>
    hleft hdata (List.append_eq_nil_iff.mp hnil).2
  generalize v.setBuffer (v.buffer ++ left) = w at hlast hkept hcommand' hne
  by_cases hremains : w.buffer.length = w.remaining
  · rw [if_pos hremains]
    have hflush := hlast.sector_works hworks (hcommand'.symm ▸ himage) hkept
      (hlast.last_sector hne hremains)
    rcases writeBuffer_spec hlast with ⟨err, x, -, -, hwrite⟩ | ⟨x, hwrite, -, -, -, -, -, herror, -⟩
    · rw [hwrite] at hflush
      cases hflush
    · rw [hwrite]
      exact herror
  · rw [if_neg hremains]
    exact hlast.error

/-- Once the image is stored, `end` succeeds. -/
theorem Stored.verifyEnd_works (hworks : Works board) {image : Bytes} (h : Stored board p image u)
    (himage : Acceptable p u.command image) : (u.verifyEnd board).1 = true := by
  unfold verifyEnd
  cases hcommand : u.command with
  | spiffs => rfl
  | flash =>
    have hlong := himage.long hcommand
    have hne : image ≠ [] := by
      rintro rfl
      exact absurd hlong (by decide)
    obtain ⟨-, hmagic, hstash, hstub⟩ := h.firmware hcommand hne
    have hlength : (image.take encryptedBlockSize).length = encryptedBlockSize :=
      List.length_take_of_le hlong
    have henable : (u.enablePartition board).1 = true ∧ ∃ calls, (u.enablePartition board).2 =
        u.driven [.program (p.address + 0) (image.take encryptedBlockSize)] calls := by
      unfold enablePartition partitionWrite
      rw [h.partition, hstash]
      have hfit : 0 + (image.take encryptedBlockSize).length ≤ p.size := by
        rw [hlength, Nat.zero_add]
        exact Nat.le_trans hlong himage.fits
      have hdone := driverCall_works hworks (decide_eq_true hfit)
        [.program (p.address + 0) (image.take encryptedBlockSize)] u
      rcases driverCall_cases board _ [.program (p.address + 0) (image.take encryptedBlockSize)] u with
        ⟨calls, hfail⟩ | ⟨-, calls, hok⟩
      · rw [hfail] at hdone
        cases hdone
      · exact ⟨hdone, calls, congrArg Prod.snd hok⟩
    obtain ⟨henabled, calls, hstate⟩ := henable
    dsimp only
    rw [henabled, if_neg (by simp), hstate]
    generalize hv : u.driven [.program (p.address + 0) (image.take encryptedBlockSize)] calls = v
    have hvp : v.partition = some p := by
      rw [← hv]
      exact h.partition
    have hfirst : v.memory board p.address = imageHeaderMagic := by
      have hread := read_program p.address (d := image.take encryptedBlockSize)
        (hstub.mono (Nat.le_refl _) (by rw [hlength]))
      have hpos : 0 < (image.take encryptedBlockSize).length := by
        rw [hlength]
        decide
      have hbyte := read_eq_iff.mp hread 0 hpos
      rw [← hv, memory_driven]
      refine hbyte.trans ?_
      have hhead : (image.take encryptedBlockSize).head? = some imageHeaderMagic := by
        rw [List.head?_take, if_neg (by decide), hmagic]
      rwa [List.head?_eq_getElem?, List.getElem?_eq_getElem hpos, Option.some_inj] at hhead
    have hbootable : (v.partitionIsBootable board).1 = true := by
      unfold partitionIsBootable
      rw [hvp]
      dsimp only
      rw [driverCall_works hworks rfl, hfirst]
      rfl
    rw [hbootable, if_neg (by simp)]
    unfold setBootPartition
    dsimp only
    rw [driverCall_works hworks rfl, if_neg (by simp)]

theorem Stored.finish_works (hworks : Works board) {image : Bytes} (h : Stored board p image u)
    (himage : Acceptable p u.command image) (htarget : u.targetMd5 = []) :
    (u.shrink.finish board).1 = true := by
  unfold finish
  rw [if_neg fun hmd5 => hmd5.1 htarget]
  exact h.shrink.verifyEnd_works hworks himage

/-- An acceptable image that was taken is accepted. -/
theorem end_works (hworks : Works board) (h : Session board p done u)
    (himage : Acceptable p u.command (done ++ u.buffer)) (htarget : u.targetMd5 = []) :
    (u.end_ board).1 = true := by
  have hrunning : (u.hasError || decide (u.size = 0)) = false := by
    have hpos := h.running
    simp [hasError, h.error, h.size]
    omega
  unfold end_
  rw [if_neg (by simp [hrunning])]
  dsimp only
  by_cases hbuffer : u.buffer = []
  · rw [if_neg (not_not.mpr hbuffer)]
    rw [hbuffer, List.append_nil] at himage
    exact h.toStored.finish_works hworks himage htarget
  · rw [if_pos hbuffer]
    have hpos := List.length_pos_iff.mpr hbuffer
    have hfit := himage.fits
    rw [List.length_append] at hfit
    have hflush := writeBuffer_works hworks h (by omega) hfit
      (fun hdone hflash => by simpa [hdone] using himage.magic hflash)
      (fun hdone hflash => by simpa [hdone] using himage.long hflash)
    rcases writeBuffer_spec h with ⟨err, v, -, -, hwrite⟩ | ⟨v, hwrite, hstored, -, hcommand, hvtarget, -⟩
    · rw [hwrite] at hflush
      cases hflush
    · rw [hwrite]
      exact hstored.finish_works hworks (hcommand.symm ▸ himage) (hvtarget.trans htarget)

end works

end Updater

end Handheld
