import Handheld.ByteString
import Mathlib.Logic.Function.Basic

/-!
# The SD card as the handlers see it

`SdStore σ` and `Sd σ` list the operations of the global `SD` object and of the `File`s it
opens that the web handlers call (`FS/src/FS.h`, `FS/src/vfs_api.cpp`). The
handlers are written once over them. What the card holds, and which calls fail,
is decided by the instance: a log of the calls (`SdLog`), the files of a card on
which every call succeeds (`Card`), or a card whose calls fail in a given
pattern (`FaultyCard`).
-/

namespace Handheld

open ByteString

/-- An open `File`: the path it was opened with and what `stat` said of it. -/
structure File where
  path : Bytes
  isDirectory : Bool
  size : Nat
deriving DecidableEq, Repr

/-- `File::name()`: the last component of the path. -/
def File.name (f : File) : Bytes := f.path.drop (lastIndexOf f.path slash + 1).toNat

inductive Mode
  | read
  | write
deriving DecidableEq, Repr

/-- The calls that the upload handler makes. A null `File` is `none`. -/
class SdStore (σ : Type) where
  exists_ : Bytes → StateM σ Bool
  mkdir : Bytes → StateM σ Bool
  open_ : Bytes → Mode → StateM σ (Option File)
  write : File → Bytes → StateM σ Nat

/-- All calls of the handlers. `openNextFiles` stands for the answers of
successive `openNextFile` calls up to the first null one. -/
class Sd (σ : Type) extends SdStore σ where
  openNextFiles : File → StateM σ (List File)
  remove : Bytes → StateM σ Bool
  rmdir : Bytes → StateM σ Bool
  rename : Bytes → Bytes → StateM σ Bool

/-! ## Running a handler -/

section StateM

variable {σ α β : Type}

theorem pure_run (a : α) (s : σ) : (pure a : StateM σ α) s = (a, s) := rfl

theorem bind_run (x : StateM σ α) (f : α → StateM σ β) (s : σ) :
    (x >>= f) s = f (x s).1 (x s).2 := rfl

theorem map_run (f : α → β) (x : StateM σ α) (s : σ) :
    (f <$> x) s = (f (x s).1, (x s).2) := rfl

end StateM

/-! ## The log instance -/

/-- A call that names a path. -/
inductive SdCall
  | exists_ (path : Bytes)
  | mkdir (path : Bytes)
  | open_ (path : Bytes) (mode : Mode)
  | remove (path : Bytes)
  | rmdir (path : Bytes)
  | rename (pathFrom pathTo : Bytes)
deriving DecidableEq, Repr

def SdCall.paths : SdCall → List Bytes
  | .exists_ p | .mkdir p | .open_ p _ | .remove p | .rmdir p => [p]
  | .rename p q => [p, q]

/-- What a card answers, whatever was called before. -/
structure SdAnswers where
  ok : List SdCall → SdCall → Bool
  file : List SdCall → SdCall → Option File
  next : List SdCall → File → List File
  written : List SdCall → File → Bytes → Nat

/-- The calls made so far, the answers being given by `answers`. -/
structure SdLog where
  answers : SdAnswers
  calls : List SdCall

def SdLog.push (call : SdCall) (s : SdLog) : SdLog := { s with calls := s.calls ++ [call] }

/-- Log a call that answers with success or failure. -/
def SdLog.ask (call : SdCall) : StateM SdLog Bool := fun s =>
  (s.answers.ok s.calls call, s.push call)

instance : Sd SdLog where
  exists_ p := SdLog.ask (.exists_ p)
  mkdir p := SdLog.ask (.mkdir p)
  open_ p m := fun s => (s.answers.file s.calls (.open_ p m), s.push (.open_ p m))
  write f d := fun s => (s.answers.written s.calls f d, s)
  openNextFiles f := fun s => (s.answers.next s.calls f, s)
  remove p := SdLog.ask (.remove p)
  rmdir p := SdLog.ask (.rmdir p)
  rename p q := SdLog.ask (.rename p q)

/-- The calls that the computation appends to the log are such a list. -/
def Logs {α : Type} (P : List SdCall → Prop) (m : StateM SdLog α) : Prop :=
  ∀ s, ∃ cs, (m s).2.calls = s.calls ++ cs ∧ P cs

section Logs

variable {α β : Type} {P Q R : List SdCall → Prop}

theorem logs_nil {m : StateM SdLog α} (hm : ∀ s, (m s).2.calls = s.calls) (h : P []) : Logs P m :=
  fun s => ⟨[], by rw [hm, List.append_nil], h⟩

theorem logs_ask {call : SdCall} (h : P [call]) : Logs P (SdLog.ask call) := fun _ => ⟨[call], rfl, h⟩

theorem logs_open {p : Bytes} {mode : Mode} (h : P [.open_ p mode]) :
    Logs P (SdStore.open_ p mode : StateM SdLog (Option File)) := fun _ => ⟨[.open_ p mode], rfl, h⟩

theorem Logs.mono {m : StateM SdLog α} (hm : Logs P m) (h : ∀ cs, P cs → Q cs) : Logs Q m := by
  intro s
  obtain ⟨cs, hcs, hP⟩ := hm s
  exact ⟨cs, hcs, h cs hP⟩

theorem Logs.bind {m : StateM SdLog α} {k : α → StateM SdLog β} (hm : Logs P m)
    (hk : ∀ a, Logs Q (k a)) (h : ∀ cs ds, P cs → Q ds → R (cs ++ ds)) : Logs R (m >>= k) := by
  intro s
  obtain ⟨cs, hcs, hP⟩ := hm s
  obtain ⟨ds, hds, hQ⟩ := hk (m s).1 (m s).2
  refine ⟨cs ++ ds, ?_, h cs ds hP hQ⟩
  rw [← List.append_assoc, ← hcs, ← hds]
  rfl

end Logs

/-! ## The card on which every call succeeds -/

/-- The components of a path. -/
abbrev Path := List Bytes

/-- The place a path names: C string functions see it up to the first NUL. -/
def resolve (p : Bytes) : Path := components (cstr p)

/-- The contents of the regular files. -/
structure Card where
  content : Path → Option Bytes

def Card.set (c : Card) (p : Path) (content : Option Bytes) : Card :=
  ⟨Function.update c.content p content⟩

@[simp] theorem Card.set_same (c : Card) (p : Path) (d : Option Bytes) :
    (c.set p d).content p = d := by
  unfold set
  exact Function.update_self p d c.content

theorem Card.set_of_ne (c : Card) {p q : Path} (h : q ≠ p) (d : Option Bytes) :
    (c.set p d).content q = c.content q := by
  unfold set
  exact Function.update_of_ne h d c.content

@[simp] theorem Card.set_content (c : Card) (p : Path) : c.set p (c.content p) = c := by
  unfold set
  rw [Function.update_eq_self]

instance : SdStore Card where
  exists_ p := fun c => ((c.content (resolve p)).isSome, c)
  mkdir _ := fun c => (true, c)
  open_ p m := fun c =>
    match m with
    | .read => ((c.content (resolve p)).map fun d => ⟨p, false, d.length⟩, c)
    | .write => (some ⟨p, false, 0⟩, c.set (resolve p) (some []))
  write f d := fun c =>
    (d.length, c.set (resolve f.path) ((c.content (resolve f.path)).map (· ++ d)))

/-! ## The card whose calls fail -/

inductive Node
  | dir
  | file (content : Bytes)
deriving DecidableEq, Repr

/-- Whether the `n`-th `mkdir` and `open` succeed, and how many bytes the `n`-th
`write` takes at most. -/
structure Faults where
  mkdir : Nat → Bool
  open_ : Nat → Bool
  written : Nat → Nat

/-- Files and folders, and the calls of each kind made so far. -/
structure FaultyCard where
  nodes : Path → Option Node
  faults : Faults
  mkdirs : Nat
  opens : Nat
  writes : Nat

def FaultyCard.set (c : FaultyCard) (p : Path) (node : Node) : FaultyCard :=
  { c with nodes := Function.update c.nodes p (some node) }

section set

variable (c : FaultyCard) (p : Path) (node : Node)

@[simp] theorem FaultyCard.set_nodes :
    (c.set p node).nodes = Function.update c.nodes p (some node) := rfl

@[simp] theorem FaultyCard.set_faults : (c.set p node).faults = c.faults := rfl

@[simp] theorem FaultyCard.set_opens : (c.set p node).opens = c.opens := rfl

@[simp] theorem FaultyCard.set_writes : (c.set p node).writes = c.writes := rfl

end set

/-- `VFSImpl::mkdir`: a folder that is there is no failure, and makes no call. -/
def FaultyCard.mkdir (p : Bytes) (c : FaultyCard) : Bool × FaultyCard :=
  match c.nodes (resolve p) with
  | some .dir => (true, c)
  | some (.file _) => (false, c)
  | none =>
    let made := if c.faults.mkdir c.mkdirs then c.set (resolve p) .dir else c
    (c.faults.mkdir c.mkdirs, { made with mkdirs := c.mkdirs + 1 })

/-- `VFSImpl::open`: a folder opens in either mode, and writing creates or empties a file. -/
def FaultyCard.open_ (p : Bytes) (m : Mode) (c : FaultyCard) : Option File × FaultyCard :=
  let called := { c with opens := c.opens + 1 }
  if c.faults.open_ c.opens then
    match c.nodes (resolve p), m with
    | some .dir, _ => (some ⟨p, true, 0⟩, called)
    | some (.file d), .read => (some ⟨p, false, d.length⟩, called)
    | none, .read => (none, called)
    | some (.file d), .write => (some ⟨p, false, d.length⟩, called.set (resolve p) (.file []))
    | none, .write => (some ⟨p, false, 0⟩, called.set (resolve p) (.file []))
  else (none, called)

/-- `VFSFileImpl::write`: nothing goes to a folder, and a write may be short. -/
def FaultyCard.write (f : File) (d : Bytes) (c : FaultyCard) : Nat × FaultyCard :=
  let taken := d.take (c.faults.written c.writes)
  let called := { c with writes := c.writes + 1 }
  match f.isDirectory, c.nodes (resolve f.path) with
  | false, some (.file old) => (taken.length, called.set (resolve f.path) (.file (old ++ taken)))
  | _, _ => (0, called)

instance : SdStore FaultyCard where
  exists_ p := fun c => ((c.nodes (resolve p)).isSome, c)
  mkdir := FaultyCard.mkdir
  open_ := FaultyCard.open_
  write := FaultyCard.write

end Handheld
