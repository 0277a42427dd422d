import Handheld.UpdateSession

/-!
# Any use of the updater

The public functions of `UpdateClass` are called in any order, with any data, and
the calls of the flash driver fail in any pattern.

Results:
1. `end_lands`: whenever `end` answers true, the partition holds the bytes that were
   taken since `begin`, but for what the check for blank data overlooks in a firmware.
2. `never_half`: a power cut between two calls of the flash driver never leaves a
   half-written image behind the magic byte of the update partition.
-/

namespace Handheld

open ByteString NorFlash Machine

namespace Updater

/-! ## Definitions -/

inductive UpdateCall
  | begin_ (command : Command)
  | setMD5 (expected : Bytes)
  | write (data : Bytes)
  | end_
  | abort

/-- The updater, the bytes that it took since `begin`, and what it had taken at
each call of `end` for a firmware. -/
structure UpdateRun where
  updater : Updater
  accepted : Bytes
  images : List Bytes

def UpdateRun.powerOn : UpdateRun := ⟨Updater.powerOn, [], []⟩

def step (board : Board) (r : UpdateRun) : UpdateCall → UpdateRun
  | .begin_ command =>
    let begun := r.updater.begin_ board command
    { r with updater := begun.2, accepted := if begun.1 then [] else r.accepted }
  | .setMD5 expected => { r with updater := (r.updater.setMD5 expected).2 }
  | .write data =>
    let written := r.updater.write board data
    { r with updater := written.2, accepted := r.accepted ++ data.take written.1 }
  | .end_ =>
    let firmware := r.updater.isRunning && r.updater.command = .flash
    { r with
      updater := (r.updater.end_ board).2
      images := if firmware then r.images ++ [r.accepted] else r.images }
  | .abort => { r with updater := r.updater.abort .abort }

/-- No update is running, or one that took exactly these bytes. -/
def Consistent (board : Board) (r : UpdateRun) : Prop :=
  r.updater.size = 0 ∨ ∃ p done, findPartition board r.updater.command = some p ∧
    Session board p done r.updater ∧ r.accepted = done ++ r.updater.buffer

/-- The partition holds what it held at power-on, or one of the images as far as an
image comes into the flash. -/
def Whole (board : Board) (p : Partition) (images : List Bytes) (m : Memory) : Prop :=
  read m p.address p.size = read board.contents p.address p.size ∨
    ∃ image ∈ images, image.head? = some imageHeaderMagic ∧ image.length ≤ p.size ∧
      read m p.address image.length = inFlash p .flash image

/-- Wherever the history is cut, a partition with the magic byte is whole. -/
def NeverHalf (board : Board) (p : Partition) (images : List Bytes) (ops : List Op) : Prop :=
  ∀ cut, cut <+: ops → replay board.contents cut p.address = imageHeaderMagic →
    Whole board p images (replay board.contents cut)

/-! ## 1. What an update leaves when it ends well -/

section lands

variable {board : Board} {p : Partition} {u : Updater} {done : Bytes}

theorem begin_busy (board : Board) (h : 0 < u.size) (command : Command) :
    u.begin_ board command = (false, u) := if_pos h

/-- `begin` while no update runs. -/
theorem begin_spec (board : Board) (h : u.size = 0) (command : Command) :
    ((u.begin_ board command).2.size = 0 ∧ (∀ p, findPartition board command = some p → p.size = 0) ∨
      ∃ p, findPartition board command = some p ∧ Session board p [] (u.begin_ board command).2 ∧
        (u.begin_ board command).1 = true ∧ (u.begin_ board command).2.command = command ∧
        (u.begin_ board command).2.targetMd5 = [] ∧ (u.begin_ board command).2.buffer = []) ∧
      (u.begin_ board command).2.ops = u.ops := by
  unfold begin_
  rw [if_neg (by rw [h]; exact Nat.lt_irrefl 0)]
  cases hfind : findPartition board command with
  | none => exact ⟨.inl ⟨rfl, fun p hp => nomatch hp⟩, rfl⟩
  | some p =>
    refine ⟨?_, rfl⟩
    rcases Nat.eq_zero_or_pos p.size with hzero | hpos
    · exact .inl ⟨hzero, fun q hq => Option.some_inj.mp hq ▸ hzero⟩
    · refine .inr ⟨p, rfl, ?_, rfl, rfl, rfl, rfl⟩
      exact {
        partition := rfl
        progress := rfl
        fits := Nat.zero_le _
        md5 := rfl
        nothing := fun _ => rfl
        plain := fun hne => absurd rfl hne
        firmware := fun _ hne => absurd rfl hne
        body := by simp [NorFlash.read]
        error := rfl
        size := rfl
        running := hpos
        sector := Nat.dvd_zero _
        buffer_le := Nat.zero_le _
        ahead := fun hblock hhead _ => by
          simp only [blockSize_eq, List.length_nil, Nat.add_zero] at hblock hhead
          omega }

theorem Session.setMD5 (h : Session board p done u) (expected : Bytes) :
    Session board p done (u.setMD5 expected).2 := by
  unfold Updater.setMD5
  split_ifs
  · exact { h with
      firmware := fun hflash hdone =>
        let hstash := h.firmware hflash hdone
        ⟨hstash.long, hstash.magic, hstash.skipBuffer, hstash.stub⟩ }
  · exact h

theorem setMD5_size (expected : Bytes) : (u.setMD5 expected).2.size = u.size := by
  unfold Updater.setMD5
  split_ifs <;> rfl

theorem setMD5_command (expected : Bytes) : (u.setMD5 expected).2.command = u.command := by
  unfold Updater.setMD5
  split_ifs <;> rfl

theorem setMD5_buffer (expected : Bytes) : (u.setMD5 expected).2.buffer = u.buffer := by
  unfold Updater.setMD5
  split_ifs <;> rfl

theorem write_idle (board : Board) (h : u.size = 0) (data : Bytes) : u.write board data = (0, u) := by
  unfold Updater.write
  rw [if_pos (by simp [isRunning, h])]

theorem end_idle (board : Board) (h : u.size = 0) : u.end_ board = (false, u) := by
  unfold Updater.end_
  rw [if_pos (by simp [h])]

theorem consistent_step {r : UpdateRun} (h : Consistent board r) (call : UpdateCall) :
    Consistent board (step board r call) := by
  cases call with
  | begin_ command =>
    rcases h with hidle | ⟨p, done, hfind, hsession, haccepted⟩
    · rcases (begin_spec board hidle command).1 with ⟨hsize, -⟩ | ⟨p, hfind, hsession, hok,
        hcommand, -, hbuffer⟩
      · exact .inl hsize
      · refine .inr ⟨p, [], hcommand.symm ▸ hfind, hsession, ?_⟩
        exact (if_pos hok).trans hbuffer.symm
    · have hbusy := begin_busy board (hsession.size.symm ▸ hsession.running) command
      refine .inr ⟨p, done, ?_⟩
      simp only [step, hbusy]
      exact ⟨hfind, hsession, haccepted⟩
  | setMD5 expected =>
    rcases h with hidle | ⟨p, done, hfind, hsession, haccepted⟩
    · exact .inl ((setMD5_size expected).trans hidle)
    · refine .inr ⟨p, done, ?_, hsession.setMD5 expected, ?_⟩
      · exact (congrArg (findPartition board) (setMD5_command expected)).trans hfind
      · exact haccepted.trans (congrArg (done ++ ·) (setMD5_buffer expected).symm)
  | write data =>
    rcases h with hidle | ⟨p, done, hfind, hsession, haccepted⟩
    · refine .inl ?_
      simp only [step, write_idle board hidle]
      exact hidle
    · rcases write_spec hsession data with ⟨err, v, -, hfail⟩ | ⟨v, done', hok, hv, hdata, hcommand, -⟩
      · refine .inl ?_
        simp only [step, hfail]
        rfl
      · refine .inr ⟨p, done', ?_⟩
        simp only [step, hok, List.take_length]
        exact ⟨hcommand.symm ▸ hfind, hv, by rw [hdata, haccepted]⟩
  | end_ =>
    refine .inl ?_
    rcases h with hidle | ⟨p, done, hfind, hsession, haccepted⟩
    · simp only [step, end_idle board hidle]
      exact hidle
    · rcases end_spec hsession (Prod.eta (r.updater.end_ board)).symm with ⟨-, -, hsize⟩ | ⟨-, hlanded⟩
      · exact hsize
      · exact hlanded.size
  | abort => exact .inl rfl

theorem consistent_run (board : Board) (calls : List UpdateCall) :
    Consistent board (run (step board) .powerOn calls) :=
  invariant_run (I := Consistent board) (fun _ call h => consistent_step h call) (.inl rfl) calls

/-- Whatever was called before: an update that ends well has written the bytes
that were taken since `begin` in their order to the partition that was asked for,
and all of them unless some are overlooked. -/
theorem end_lands (board : Board) {r : UpdateRun} (hreach : Reaches (step board) UpdateRun.powerOn r)
    {v : Updater} (hend : r.updater.end_ board = (true, v)) :
    ∃ p, findPartition board r.updater.command = some p ∧
      Landed board p r.accepted r.updater.command r.updater.boot v ∧
      (read (v.memory board) p.address r.accepted.length = r.accepted ↔
        overlooked p r.updater.command r.accepted = false) := by
  obtain ⟨calls, rfl⟩ := hreach
  rcases consistent_run board calls with hidle | ⟨p, done, hfind, hsession, haccepted⟩
  · rw [end_idle board hidle] at hend
    cases hend
  · rcases end_spec hsession hend with ⟨hfalse, -⟩ | ⟨-, hlanded⟩
    · cases hfalse
    · rw [← haccepted] at hlanded
      refine ⟨p, hfind, hlanded, ?_⟩
      rw [hlanded.holds]
      exact inFlash_eq_iff

/-- A board whose update partition is one sector, and an image of 32 bytes. -/
def oneSector : Board where
  nextUpdate := some ⟨0x10000, sectorSize, false, by decide, by decide⟩
  spiffs := none
  fat := none
  disjoint := fun _ _ _ h => by simp at h
  contents := fun _ => 0
  ok := fun _ => true
  digest := id

def smallImage : Bytes := imageHeaderMagic :: List.replicate 31 1

theorem end_lands_small : ∃ p v, Landed oneSector p smallImage .flash [] v ∧
    (read (v.memory oneSector) p.address smallImage.length = smallImage ↔
      overlooked p .flash smallImage = false) := by
  obtain ⟨p, -, h⟩ := end_lands oneSector
    (r := run (step oneSector) UpdateRun.powerOn [.begin_ .flash, .write smallImage]) ⟨_, rfl⟩
    (Prod.ext rfl rfl)
  exact ⟨p, _, h⟩

/-- The bytes 4 to 19 of these 32 are blank: the check looks no further. -/
example (p : Partition) (hplain : p.encrypted = false) :
    overlooked p .flash (imageHeaderMagic :: 1 :: 2 :: 3 ::
      (List.replicate 16 blank ++ List.replicate 12 7)) = true := by
  unfold overlooked
  rw [hplain]
  decide

end lands

/-! ## 2. Power cuts -/

section cuts

variable {board : Board} {p q : Partition} {u : Updater} {done : Bytes} {images : List Bytes}
  {ops added : List Op}

theorem whole_of_size_zero (h : p.size = 0) (m : Memory) : Whole board p images m := by
  left
  rw [h]
  rfl

theorem Whole.congr {m m' : Memory} (h : Whole board p images m)
    (hm : ∀ i, p.address ≤ i → i < p.address + p.size → m' i = m i) : Whole board p images m' := by
  rcases h with h | ⟨image, himage, hhead, hfits, hread⟩
  · left
    rwa [read_congr hm]
  · refine .inr ⟨image, himage, hhead, hfits, ?_⟩
    rw [read_congr fun i hi hi' => hm i hi (Nat.lt_of_lt_of_le hi' (Nat.add_le_add_left hfits _))]
    exact hread

theorem NeverHalf.mono (h : NeverHalf board p images ops) (more : List Bytes) :
    NeverHalf board p (images ++ more) ops := by
  intro cut hcut hmagic
  rcases h cut hcut hmagic with h | ⟨image, himage, h⟩
  · exact .inl h
  · exact .inr ⟨image, List.mem_append_left more himage, h⟩

/-- At most one operation follows. -/
theorem NeverHalf.append (h : NeverHalf board p images ops) (hone : added.length ≤ 1)
    (hafter : replay board.contents (ops ++ added) p.address = imageHeaderMagic →
      Whole board p images (replay board.contents (ops ++ added))) :
    NeverHalf board p images (ops ++ added) := by
  intro cut hcut hmagic
  match added, hone with
  | [], _ => exact h cut (by rwa [List.append_nil] at hcut) hmagic
  | [op], _ =>
    rcases List.prefix_concat_iff.mp hcut with rfl | hold
    · exact hafter hmagic
    · exact h cut hold hmagic

/-- An operation elsewhere. -/
theorem NeverHalf.append_spared (h : NeverHalf board p images ops) (hone : added.length ≤ 1)
    (hspares : ∀ op ∈ added, op.Spares p.address (p.address + p.size)) :
    NeverHalf board p images (ops ++ added) := by
  refine h.append hone fun hmagic => ?_
  rcases Nat.eq_zero_or_pos p.size with hzero | hpos
  · exact whole_of_size_zero hzero _
  have hkept : ∀ i, p.address ≤ i → i < p.address + p.size →
      replay board.contents (ops ++ added) i = replay board.contents ops i := by
    intro i hi hi'
    rw [replay_append, kept_replay hspares hi hi']
  rw [hkept _ (Nat.le_refl _) (Nat.lt_add_of_pos_right hpos)] at hmagic
  exact (h ops List.prefix_rfl hmagic).congr hkept

/-- An operation that leaves the first byte of the partition blank. -/
theorem NeverHalf.append_blank (h : NeverHalf board p images ops) (hone : added.length ≤ 1)
    (hblank : replay (replay board.contents ops) added p.address = blank) :
    NeverHalf board p images (ops ++ added) := by
  refine h.append hone fun hmagic => ?_
  rw [replay_append, hblank] at hmagic
  cases hmagic

theorem Erases.length_le (h : Erases p u ops) : ops.length ≤ 1 := by
  cases h <;> simp

theorem Programs.length_le (h : Programs p u ops) : ops.length ≤ 1 := by
  cases h <;> simp

theorem Erases.within (h : Erases p u ops) {op : Op} (hop : op ∈ ops) :
    p.address ≤ op.start ∧ op.stop ≤ p.address + p.size := by
  cases h with
  | none => cases hop
  | block _ hfit | sector _ _ hfit =>
    rw [List.mem_singleton.mp hop]
    dsimp only [Op.start, Op.stop]
    omega

theorem Programs.within (h : Programs p u ops) {op : Op} (hop : op ∈ ops) :
    p.address ≤ op.start ∧ op.stop ≤ p.address + p.size := by
  cases h with
  | none => cases hop
  | data hfit =>
    rw [List.mem_singleton.mp hop]
    dsimp only [Op.start, Op.stop]
    omega

theorem spares_of_within {op : Op} (hdisjoint : p.Disjoint q)
    (h : q.address ≤ op.start ∧ op.stop ≤ q.address + q.size) :
    op.Spares p.address (p.address + p.size) := by
  rcases hdisjoint with hbelow | habove
  · exact .inl (Nat.le_trans hbelow h.1)
  · exact .inr (Nat.le_trans h.2 habove)

/-- The partition that `begin` chose is the update partition, or shares no byte
with it. -/
theorem findPartition_cases {command : Command} (hp : board.nextUpdate = some p)
    (hq : findPartition board command = some q) :
    command = .flash ∧ q = p ∨ command = .spiffs ∧ p.Disjoint q := by
  cases command with
  | flash => exact .inl ⟨rfl, Option.some_inj.mp (hq.symm.trans hp)⟩
  | spiffs => exact .inr ⟨rfl, board.disjoint p hp q (Option.or_eq_some_iff.mp hq |>.imp_right (·.2))⟩

/-- Before the first byte of a firmware goes to the flash it is blank there, -/
theorem Session.blank_erased (h : Session board p done u) (hflash : u.command = .flash)
    {erased : List Op} (herased : Erases p u erased) :
    replay (u.memory board) erased p.address = blank := by
  have hsector := h.erased herased
  by_cases hdone : done = []
  · subst hdone
    exact hsector.2.1 _ (Nat.le_refl _) (Nat.lt_add_of_pos_right (by decide))
  · rw [hsector.1 _ (Nat.lt_add_of_pos_right (List.length_pos_iff.mpr hdone))]
    exact (h.firmware hflash hdone).stub _ (Nat.le_refl _) (Nat.lt_add_of_pos_right (by decide))

/-- and it stays blank until `end`. -/
theorem Session.blank_programmed (h : Session board p done u) (hflash : u.command = .flash)
    {erased programmed : List Op} (herased : Erases p u erased)
    (hprogrammed : Programs p u programmed) :
    replay (replay (u.memory board) erased) programmed p.address = blank := by
  rw [programs_of_lt hprogrammed, h.blank_erased hflash herased]
  refine Nat.lt_add_of_pos_right ?_
  rw [skip_eq h.progress, h.progress, hflash]
  split_ifs with hdone
  · exact Nat.add_pos_right _ (by decide)
  · exact List.length_pos_iff.mpr hdone

section session

variable (hp : board.nextUpdate = some p) (hq : findPartition board u.command = some q)
include hp hq

theorem Session.neverHalf_erased (h : Session board q done u)
    (hhalf : NeverHalf board p images u.ops) {erased : List Op} (herased : Erases q u erased) :
    NeverHalf board p images (u.ops ++ erased) := by
  rcases findPartition_cases hp hq with ⟨hflash, rfl⟩ | ⟨-, hdisjoint⟩
  · exact hhalf.append_blank herased.length_le (h.blank_erased hflash herased)
  · exact hhalf.append_spared herased.length_le fun op hop =>
      spares_of_within hdisjoint (herased.within hop)

theorem Session.neverHalf_programmed (h : Session board q done u)
    (hhalf : NeverHalf board p images u.ops) {erased programmed : List Op}
    (herased : Erases q u erased) (hprogrammed : Programs q u programmed) :
    NeverHalf board p images (u.ops ++ (erased ++ programmed)) := by
  have herased' := h.neverHalf_erased hp hq hhalf herased
  rw [← List.append_assoc]
  rcases findPartition_cases hp hq with ⟨hflash, rfl⟩ | ⟨-, hdisjoint⟩
  · refine herased'.append_blank hprogrammed.length_le ?_
    rw [replay_append]
    exact h.blank_programmed hflash herased hprogrammed
  · exact herased'.append_spared hprogrammed.length_le fun op hop =>
      spares_of_within hdisjoint (hprogrammed.within hop)

theorem Session.neverHalf_writeBuffer (h : Session board q done u)
    (hhalf : NeverHalf board p images u.ops) :
    NeverHalf board p images (u.writeBuffer board).2.ops := by
  rcases writeBuffer_cases board h.partition with ⟨err, v, -, -, hops, hwrite⟩ | ⟨erased, programmed,
    calls, herased, hprogrammed, -, -, hwrite⟩
  · rw [hwrite]
    show NeverHalf board p images v.ops
    rcases hops with hsame | ⟨erased, herased, hmore⟩
    · rwa [hsame]
    · rw [hmore]
      exact h.neverHalf_erased hp hq hhalf herased
  · rw [hwrite]
    exact h.neverHalf_programmed hp hq hhalf herased hprogrammed

theorem Session.neverHalf_fillLoop (h : Session board q done u)
    (hhalf : NeverHalf board p images u.ops) (fuel : Nat) (data : Bytes) :
    NeverHalf board p images (u.fillLoop board fuel data).2.ops := by
  induction fuel generalizing u done data with
  | zero => exact hhalf
  | succ fuel ih =>
    unfold fillLoop
    by_cases hfits : sectorSize < u.buffer.length + data.length
    · rw [if_pos hfits]
      generalize htoBuff : sectorSize - u.buffer.length = toBuff
      have hbuffer := h.buffer_le
      have hfull : (u.buffer ++ data.take toBuff).length = sectorSize := by
        rw [List.length_append, List.length_take]
        omega
      have hfilled := h.setBuffer (Nat.le_of_eq hfull)
      have hcommand : (u.setBuffer (u.buffer ++ data.take toBuff)).command = u.command := rfl
      have hkept := hfilled.neverHalf_writeBuffer hp (hcommand.symm ▸ hq) hhalf
      dsimp only
      split_ifs with hok
      · rcases writeBuffer_spec hfilled with ⟨err, v, -, -, hwrite⟩ | ⟨v, hwrite, -, -, hcommand, -, -, -,
          -, hnext⟩
        · rw [hwrite] at hok
          cases hok
        · rw [hwrite] at hkept ⊢
          refine ih ?_ (hnext hfull) hkept (data.drop toBuff)
          rw [hcommand]
          exact hq
      · exact hkept
    · rw [if_neg hfits]
      exact hhalf

theorem Session.neverHalf_write (h : Session board q done u)
    (hhalf : NeverHalf board p images u.ops) (data : Bytes) :
    NeverHalf board p images (u.write board data).2.ops := by
  have hfuel : u.buffer.length + data.length ≤ sectorSize * (data.length + 1) := by
    have hbuffer := h.buffer_le
    rw [sectorSize_eq] at *
    omega
  have hfilled := h.neverHalf_fillLoop hp hq hhalf (data.length + 1) data
  unfold write
  by_cases hidle : (u.hasError || !u.isRunning) = true
  · rw [if_pos hidle]
    exact hhalf
  rw [if_neg hidle]
  by_cases hspace : u.remaining < data.length
  · rw [if_pos hspace]
    exact hhalf
  rw [if_neg hspace]
  dsimp only
  rcases fillLoop_spec h hfuel with ⟨err, v, left, -, hloop⟩ | ⟨v, done', left, hloop, hv, -, hcommand,
    -, hbuffer, -⟩
  · rw [hloop] at hfilled ⊢
    exact hfilled
  · rw [hloop] at hfilled ⊢
    have hlast : Session board q done' (v.setBuffer (v.buffer ++ left)) :=
      hv.setBuffer (by rwa [List.length_append])
    rw [if_neg (by simp)]
    dsimp only
    have hcommand' : (v.setBuffer (v.buffer ++ left)).command = u.command := hcommand
    by_cases hremains : (v.setBuffer (v.buffer ++ left)).buffer.length =
        (v.setBuffer (v.buffer ++ left)).remaining
    · rw [if_pos hremains]
      exact hlast.neverHalf_writeBuffer hp (hcommand'.symm ▸ hq) hfilled
    · rw [if_neg hremains]
      exact hfilled

end session

/-- What `end` programs last completes the image. -/
theorem Stored.neverHalf_finish (hp : board.nextUpdate = some p) {image : Bytes}
    (h : Stored board q image u) (hq : findPartition board u.command = some q)
    (himage : u.command = .flash → image ∈ images) (hhalf : NeverHalf board p images u.ops) :
    NeverHalf board p images (u.shrink.finish board).2.ops := by
  have hcompleted : ∀ (r : Partition) (skipped : Bytes), u.command = .flash → u.partition = some r →
      u.skipBuffer = some skipped →
      NeverHalf board p images (u.ops ++ [.program (r.address + 0) skipped]) := by
    intro r skipped hflash hr hskip
    obtain rfl : r = q := Option.some_inj.mp (hr.symm.trans h.partition)
    rw [hflash] at hq
    obtain rfl : r = p := Option.some_inj.mp (hq.symm.trans hp)
    refine hhalf.append (Nat.le_refl 1) fun _ =>
      .inr ⟨image, himage hflash, h.magic hflash hskip, h.fits, ?_⟩
    rw [replay_concat]
    exact h.completed hflash hskip
  unfold finish
  split_ifs
  · exact hhalf
  · rcases verifyEnd_cases board u.shrink with ⟨err, v, -, hend, hops⟩ | ⟨-, hend⟩ |
      ⟨r, skipped, calls, hflash, hr, hskip, hend⟩
    · rw [hend]
      show NeverHalf board p images v.ops
      rcases hops with hsame | ⟨r, skipped, hflash, hr, hskip, hmore⟩
      · rw [hsame]
        exact hhalf
      · rw [hmore]
        exact hcompleted r skipped hflash hr hskip
    · rw [hend]
      exact hhalf
    · rw [hend]
      exact hcompleted r skipped hflash hr hskip

theorem Session.neverHalf_end (hp : board.nextUpdate = some p) (h : Session board q done u)
    (hq : findPartition board u.command = some q)
    (himage : u.command = .flash → done ++ u.buffer ∈ images)
    (hhalf : NeverHalf board p images u.ops) :
    NeverHalf board p images (u.end_ board).2.ops := by
  have hkept := h.neverHalf_writeBuffer hp hq hhalf
  unfold end_
  split_ifs with hidle hbuffer
  · exact hhalf
  · rcases writeBuffer_spec h with ⟨err, v, -, -, hwrite⟩ | ⟨v, hwrite, hstored, -, hcommand, -⟩
    · obtain ⟨err', w, -, hfail, hops⟩ := finish_abort board err v
      rw [hwrite] at hkept ⊢
      rw [hfail]
      show NeverHalf board p images w.ops
      rw [hops]
      exact hkept
    · rw [hwrite] at hkept ⊢
      exact hstored.neverHalf_finish hp (hcommand ▸ hq) (hcommand ▸ himage) hkept
  · rw [not_not.mp hbuffer, List.append_nil] at himage
    exact h.toStored.neverHalf_finish hp hq himage hhalf

end cuts

theorem neverHalf_step {board : Board} {p : Partition} (hp : board.nextUpdate = some p)
    {r : UpdateRun} (h : Consistent board r) (hhalf : NeverHalf board p r.images r.updater.ops)
    (call : UpdateCall) :
    NeverHalf board p (step board r call).images (step board r call).updater.ops := by
  cases call with
  | begin_ command =>
    rcases Nat.eq_zero_or_pos r.updater.size with hidle | hbusy
    · simp only [step, (begin_spec board hidle command).2]
      exact hhalf
    · simp only [step, begin_busy board hbusy command]
      exact hhalf
  | setMD5 expected =>
    have hops : (r.updater.setMD5 expected).2.ops = r.updater.ops := by
      unfold Updater.setMD5
      split_ifs <;> rfl
    simp only [step, hops]
    exact hhalf
  | write data =>
    rcases h with hidle | ⟨q, done, hq, hsession, -⟩
    · simp only [step, write_idle board hidle]
      exact hhalf
    · exact hsession.neverHalf_write hp hq hhalf data
  | end_ =>
    have hmore : NeverHalf board p (step board r .end_).images r.updater.ops := by
      show NeverHalf board p (if _ then r.images ++ [r.accepted] else r.images) _
      split_ifs
      · exact hhalf.mono [r.accepted]
      · exact hhalf
    rcases h with hidle | ⟨q, done, hq, hsession, haccepted⟩
    · simp only [step, end_idle board hidle] at hmore ⊢
      exact hmore
    · refine hsession.neverHalf_end hp hq (fun hflash => ?_) hmore
      have hfirmware : (r.updater.isRunning && r.updater.command = .flash) = true := by
        simp [isRunning, hsession.size, hsession.running, hflash]
      rw [← haccepted]
      show r.accepted ∈ if _ then r.images ++ [r.accepted] else r.images
      rw [if_pos hfirmware]
      exact List.mem_append_right _ List.mem_cons_self
  | abort => exact hhalf

/-- Wherever the power is cut between two calls of the flash driver, in any use
of the updater: if the update partition begins with the magic byte, then it holds
what it held at power-on, or a firmware for which `end` was called, complete but for
what is overlooked. -/
theorem never_half (board : Board) {r : UpdateRun} (hreach : Reaches (step board) UpdateRun.powerOn r)
    {p : Partition} (hp : board.nextUpdate = some p) {cut : List Op} (hcut : cut <+: r.updater.ops)
    (hmagic : replay board.contents cut p.address = imageHeaderMagic) :
    Whole board p r.images (replay board.contents cut) := by
  have h0 : NeverHalf board p [] [] := by
    intro cut hcut _
    rw [List.prefix_nil.mp hcut]
    exact .inl rfl
  obtain ⟨calls, rfl⟩ := hreach
  have hboth := invariant_run
    (I := fun r => Consistent board r ∧ NeverHalf board p r.images r.updater.ops)
    (fun r call h => ⟨consistent_step h.1 call, neverHalf_step hp h.1 h.2 call⟩)
    (s := .powerOn) ⟨.inl rfl, h0⟩ calls
  exact hboth.2 cut hcut hmagic

theorem never_half_small : ∃ p, Whole oneSector p [smallImage]
    ((run (step oneSector) UpdateRun.powerOn
      [.begin_ .flash, .write smallImage, .end_]).updater.memory oneSector) :=
  ⟨_, never_half oneSector ⟨_, rfl⟩ rfl List.prefix_rfl rfl⟩

end Updater

end Handheld
