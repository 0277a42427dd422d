import Handheld.Network
import Handheld.Registry

/-!
# `WebReadSDCard::begin` and `WebReadSDCard::end` (`WebReadSDCard.cpp`, `WebServer.cpp`)

`begin` registers seven handlers and keeps a pointer to each; `end` removes the
handlers that it has pointers to. Other modules register handlers in the same list.

Results:
1. `begin_handlers`, `begin_refines`, `serve_refines`: what `begin` and a connection
   append, as in the list of `Network`.
2. `end_leaves`: `end` leaves the others' handlers as they were registered, and of
   its own those of every `begin` but the last.
3. `endUndoesBegin_iff`: it undoes the calls of `begin` exactly when there is at
   most one.
-/

namespace Handheld

open ByteString Registry

/-! ## Definitions -/

/-- The address of a handler, which is all that the server compares: `made n` is
the `n`-th object that `WebReadSDCard` had made by `on`, `other n` an object that
another module registers, perhaps again. Nothing is freed before `end`. -/
inductive Pointer
  | made (n : Nat)
  | other (n : Nat)
deriving DecidableEq, Repr

/-- An entry of `_handlers`. -/
structure Entry where
  pointer : Pointer
  handler : Handler
deriving DecidableEq, Repr

/-- The server's list, the number of handlers made for `WebReadSDCard`, and its
seven pointers. -/
structure WebSD where
  handlers : List Entry
  made : Nat
  readsdHandler : Option Pointer
  systemInfoHandler : Option Pointer
  listFilesHandler : Option Pointer
  uploadHandler : Option Pointer
  fileHandler : Option Pointer
  renameHandler : Option Pointer
  rebootHandler : Option Pointer

namespace WebSD

def boot : WebSD := ⟨[], 0, none, none, none, none, none, none, none⟩

/-- `AsyncWebServer::addHandler`. -/
def addHandler (s : WebSD) (e : Entry) : WebSD := { s with handlers := s.handlers ++ [e] }

/-- `AsyncWebServer::removeHandler`. -/
def removeHandler (s : WebSD) (p : Pointer) : WebSD :=
  { s with handlers := removeFirst Entry.pointer s.handlers p }

/-- `AsyncWebServer::on` and the address of what it returns. -/
def on (s : WebSD) (uri : Bytes) : Option Pointer × WebSD :=
  (some (.made s.made), { s.addHandler ⟨.made s.made, .on uri⟩ with made := s.made + 1 })

def handleRoot (s : WebSD) : WebSD :=
  let (p, s) := s.on (ascii "/readsd")
  { s with readsdHandler := p }

def handleSystemInfo (s : WebSD) : WebSD :=
  let (p, s) := s.on (ascii "/systeminfo")
  { s with systemInfoHandler := p }

def handleListFiles (s : WebSD) : WebSD :=
  let (p, s) := s.on (ascii "/listfiles")
  { s with listFilesHandler := p }

def handleUpload (s : WebSD) : WebSD :=
  let (p, s) := s.on (ascii "/upload")
  { s with uploadHandler := p }

def handleFileAction (s : WebSD) : WebSD :=
  let (p, s) := s.on (ascii "/file")
  { s with fileHandler := p }

def handleRename (s : WebSD) : WebSD :=
  let (p, s) := s.on (ascii "/rename")
  { s with renameHandler := p }

def handleReboot (s : WebSD) : WebSD :=
  let (p, s) := s.on (ascii "/reboot")
  { s with rebootHandler := p }

/-- `WebReadSDCard::begin`, up to `_server->begin()`. -/
def begin_ (s : WebSD) : WebSD :=
  s.handleRoot.handleSystemInfo.handleListFiles.handleUpload.handleFileAction.handleRename
    |>.handleReboot

/-- `if (pointer) _server->removeHandler(pointer);` -/
def removeIf (s : WebSD) : Option Pointer → WebSD
  | some p => s.removeHandler p
  | none => s

/-- `WebReadSDCard::end`; the pointers keep their values. -/
def end_ (s : WebSD) : WebSD :=
  let s := s.removeIf s.readsdHandler
  let s := s.removeIf s.systemInfoHandler
  let s := s.removeIf s.listFilesHandler
  let s := s.removeIf s.uploadHandler
  let s := s.removeIf s.fileHandler
  let s := s.removeIf s.renameHandler
  s.removeIf s.rebootHandler

/-- A call of `begin`, or a registration by another module. -/
inductive Registration
  | begin_
  | other (n : Nat) (h : Handler)
deriving DecidableEq, Repr

def step (s : WebSD) : Registration → WebSD
  | .begin_ => s.begin_
  | .other n h => s.addHandler ⟨.other n, h⟩

def Registration.other? : Registration → Option Entry
  | .begin_ => none
  | .other n h => some ⟨.other n, h⟩

/-- What the other modules register, in their order. -/
def others (rs : List Registration) : List Entry := rs.filterMap Registration.other?

/-- The calls of `begin`. -/
def begins (rs : List Registration) : Nat := rs.count .begin_

/-- After the registrations `end` leaves the other modules' handlers in their
order, and nothing else. -/
def EndUndoesBegin (rs : List Registration) : Prop :=
  (Machine.run step boot rs).end_.handlers = others rs

/-! ## 1. `begin` -/

/-- The URIs of the seven handlers. -/
def uris : List Bytes :=
  [ascii "/readsd", ascii "/systeminfo", ascii "/listfiles", ascii "/upload", ascii "/file",
   ascii "/rename", ascii "/reboot"]

/-- The handlers of a call of `begin`, from the `n`-th on. -/
def block (n : Nat) : List Entry := (uris.zipIdx n).map fun (uri, i) => ⟨.made i, .on uri⟩

/-- The pointers that are not null. -/
def pointers (s : WebSD) : List Pointer :=
  [s.readsdHandler, s.systemInfoHandler, s.listFilesHandler, s.uploadHandler, s.fileHandler,
    s.renameHandler, s.rebootHandler].flatMap Option.toList

theorem begin_handlers (s : WebSD) : s.begin_.handlers = s.handlers ++ block s.made := by
  simp [begin_, handleRoot, handleSystemInfo, handleListFiles, handleUpload, handleFileAction,
    handleRename, handleReboot, on, addHandler, block, uris]

theorem begin_made (s : WebSD) : s.begin_.made = s.made + 7 := rfl

theorem begin_pointers (s : WebSD) :
    s.begin_.pointers = (List.range' s.made 7).map .made := rfl

/-- `begin` on the list without the addresses is that of `Network`. -/
theorem begin_refines {s : WebSD} {n : Network} (h : s.handlers.map Entry.handler = n.handlers) :
    s.begin_.handlers.map Entry.handler = n.webSDBegin.handlers := by
  rw [begin_handlers, List.map_append, h]
  rfl

/-- The registrations of `webSerial.begin(); commandAction(); webSD.begin();`. -/
def serveCalls : List Registration := [.other 0 (.on (ascii "/")), .other 1 .webSocket, .begin_]

/-- A connection registers what `Network` says it does. -/
theorem serve_refines {s : WebSD} {n : Network} (h : s.handlers.map Entry.handler = n.handlers) :
    (Machine.run step s serveCalls).handlers.map Entry.handler = n.serve.handlers := by
  refine begin_refines (n := n.webSerialBegin)
    (s := (s.addHandler ⟨.other 0, .on (ascii "/")⟩).addHandler ⟨.other 1, .webSocket⟩) ?_
  simp [addHandler, Network.webSerialBegin, h]

/-! ## 2. `end` -/

/-- The number of a handler that `WebReadSDCard` had made. -/
def serial (e : Entry) : Option Nat :=
  match e.pointer with
  | .made n => some n
  | .other _ => none

/-- What the registrations have left: the others' handlers in their order, those
of `begin` by their numbers, and pointers to the last seven of them. -/
structure Registered (rs : List Registration) (s : WebSD) : Prop where
  others : s.handlers.filter (fun e => serial e = none) = others rs
  serials : s.handlers.filterMap serial = List.range s.made
  made : s.made = 7 * begins rs
  pointers : s.pointers = (List.range' (s.made - 7) (min s.made 7)).map .made

theorem serials_block (n : Nat) : (block n).filterMap serial = List.range' n 7 := rfl

theorem others_block (n : Nat) : (block n).filter (fun e => serial e = none) = [] := rfl

theorem registered_step {rs : List Registration} {s : WebSD} (h : Registered rs s)
    (r : Registration) : Registered (rs ++ [r]) (s.step r) := by
  cases r with
  | begin_ =>
    have hbegins : begins (rs ++ [.begin_]) = begins rs + 1 := by
      rw [begins, begins, List.count_append, List.count_singleton_self]
    have hmade : (s.step .begin_).made = s.made + 7 := begin_made s
    refine ⟨?_, ?_, ?_, ?_⟩
    · rw [step, begin_handlers, List.filter_append, h.others, others_block, others, others,
        List.filterMap_append]
      rfl
    · rw [hmade, step, begin_handlers, List.filterMap_append, h.serials, serials_block,
        List.range_eq_range', List.range_eq_range', ← List.range'_append_1]
      simp
    · rw [hmade, h.made, hbegins]
      omega
    · rw [hmade, Nat.add_sub_cancel, Nat.min_eq_right (Nat.le_add_left 7 s.made), step,
        begin_pointers]
  | other n handler =>
    have hbegins : begins (rs ++ [.other n handler]) = begins rs := by
      rw [begins, List.count_append, List.count_singleton]
      rfl
    refine ⟨?_, ?_, ?_, h.pointers⟩
    · show (s.handlers ++ [_]).filter _ = _
      rw [List.filter_append, h.others, WebSD.others, WebSD.others, List.filterMap_append]
      rfl
    · show (s.handlers ++ [_]).filterMap serial = _
      rw [List.filterMap_append, h.serials]
      exact List.append_nil _
    · rw [hbegins, ← h.made]
      rfl

theorem registered_run (rs : List Registration) : Registered rs (Machine.run step boot rs) := by
  induction rs using List.reverseRecOn with
  | nil => exact ⟨rfl, rfl, rfl, rfl⟩
  | append_singleton rs r ih =>
    rw [Machine.run_concat]
    exact registered_step ih r

/-- No two entries share an object that `begin` had made. -/
theorem occurrences_le_one {rs : List Registration} {s : WebSD} (h : Registered rs s) (n : Nat) :
    occurrences Entry.pointer (.made n) s.handlers ≤ 1 := by
  have hnodup : (s.handlers.filterMap serial).Nodup := h.serials ▸ List.nodup_range
  have hcount : occurrences Entry.pointer (.made n) s.handlers =
      (s.handlers.filterMap serial).count n := by
    rw [occurrences, List.count, List.countP_filterMap]
    refine List.countP_congr fun e _ => ?_
    unfold serial
    cases e.pointer <;> simp
  rw [hcount]
  exact List.nodup_iff_count.mp hnodup n

theorem removeIf_eq (s : WebSD) (p : Option Pointer) :
    s.removeIf p = { s with handlers := removeAll Entry.pointer s.handlers p.toList } := by
  cases p <;> rfl

/-- `end` removes what it has pointers to, one after the other. -/
theorem end_eq_removeAll (s : WebSD) :
    s.end_.handlers = removeAll Entry.pointer s.handlers s.pointers := by
  simp only [end_, removeIf_eq, pointers, List.flatMap_cons, List.flatMap_nil, removeAll_append,
    removeAll_nil]

/-- `end` keeps what it has no pointer to. -/
theorem end_eq_filter {rs : List Registration} {s : WebSD} (h : Registered rs s) :
    s.end_.handlers = s.handlers.filter fun e => e.pointer ∉ s.pointers := by
  rw [end_eq_removeAll]
  refine removeAll_eq_filter fun p hp => ?_
  rw [h.pointers] at hp
  obtain ⟨n, -, rfl⟩ := List.mem_map.mp hp
  exact occurrences_le_one h n

/-- `end` has no pointer to another module's handler. -/
theorem kept_of_other {rs : List Registration} {s : WebSD} (h : Registered rs s) {e : Entry}
    (hserial : serial e = none) : e.pointer ∉ s.pointers := by
  rw [h.pointers]
  unfold serial at hserial
  cases hpointer : e.pointer with
  | made n => simp [hpointer] at hserial
  | other n => simp

/-- Of its own it has pointers to the last seven. -/
theorem kept_iff {rs : List Registration} {s : WebSD} (h : Registered rs s) {e : Entry} {n : Nat}
    (he : e ∈ s.handlers) (hserial : serial e = some n) :
    e.pointer ∉ s.pointers ↔ n < s.made - 7 := by
  have hlt : n < s.made := by
    rw [← List.mem_range, ← h.serials]
    exact List.mem_filterMap.mpr ⟨e, he, hserial⟩
  have hpointer : e.pointer = .made n := by
    unfold serial at hserial
    cases hpointer : e.pointer with
    | made m => simpa [hpointer] using hserial
    | other m => simp [hpointer] at hserial
  rw [h.pointers, hpointer]
  simp only [List.mem_map, List.mem_range'_1, Pointer.made.injEq, exists_eq_right]
  omega

theorem range_filter_lt (m n : Nat) :
    (List.range n).filter (fun i => i < n - m) = List.range (n - m) := by
  have hsplit : List.range n = List.range (n - m) ++ List.range' (n - m) (min m n) := by
    have happend := List.range'_append_1 (s := 0) (m := n - m) (n := min m n)
    rw [Nat.zero_add, show n - m + min m n = n by omega] at happend
    rw [List.range_eq_range', List.range_eq_range', happend]
  rw [hsplit, List.filter_append, List.filter_eq_self.mpr, List.filter_eq_nil_iff.mpr,
    List.append_nil]
  · intro i hi
    rw [List.mem_range'_1] at hi
    simpa using hi.1
  · intro i hi
    simpa using List.mem_range.mp hi

/-- After `end` the others' handlers are in their order, and those of every call
of `begin` but the last are still there. -/
theorem end_leaves (rs : List Registration) :
    let hs := (Machine.run step boot rs).end_.handlers
    hs.filter (fun e => serial e = none) = others rs ∧
      hs.filterMap serial = List.range (7 * (begins rs - 1)) := by
  have h := registered_run rs
  generalize Machine.run step boot rs = s at h
  simp only [end_eq_filter h]
  constructor
  · rw [← h.others, List.filter_filter]
    refine List.filter_congr fun e _ => ?_
    cases hserial : serial e with
    | none => simp [kept_of_other h hserial]
    | some n => simp
  · have hmade : 7 * (begins rs - 1) = s.made - 7 := by
      rw [h.made]
      omega
    rw [hmade, ← range_filter_lt 7 s.made, ← h.serials, List.filterMap_filter,
      List.filter_filterMap]
    refine List.filterMap_congr fun e he => ?_
    cases hserial : serial e with
    | none => simp
    | some n => simp [kept_iff h he hserial, Option.filter_some]

theorem serial_of_mem_others {rs : List Registration} {e : Entry} (h : e ∈ others rs) :
    serial e = none := by
  obtain ⟨r, -, hr⟩ := List.mem_filterMap.mp h
  cases r with
  | begin_ => cases hr
  | other n handler =>
    obtain rfl := Option.some.inj hr
    rfl

/-- `end` undoes `begin` exactly when `begin` has not been called twice. -/
theorem endUndoesBegin_iff (rs : List Registration) : EndUndoesBegin rs ↔ begins rs ≤ 1 := by
  obtain ⟨hothers, hserials⟩ := end_leaves rs
  unfold EndUndoesBegin
  generalize (Machine.run step boot rs).end_.handlers = hs at hothers hserials
  constructor
  · rintro rfl
    have hnone : (others rs).filterMap serial = [] :=
      List.filterMap_eq_nil_iff.mpr fun e he => serial_of_mem_others he
    rw [hnone, eq_comm, List.range_eq_nil] at hserials
    omega
  · intro hbegins
    rw [Nat.sub_eq_zero_of_le hbegins, Nat.mul_zero, List.range_zero,
      List.filterMap_eq_nil_iff] at hserials
    rw [← hothers, eq_comm, List.filter_eq_self]
    exact fun e he => decide_eq_true (hserials e he)

/-- A second connection: the handlers of the first are still there after `end`. -/
theorem end_leaves_first_handlers :
    (Machine.run step boot [.begin_, .other 0 .webSocket, .begin_]).end_.handlers =
        block 0 ++ [⟨.other 0, .webSocket⟩] ∧
      ¬ ∀ rs, 1 ≤ begins rs → EndUndoesBegin rs := by
  refine ⟨by decide, fun h => ?_⟩
  exact absurd (h [.begin_, .begin_] (by decide)) (by unfold EndUndoesBegin; decide)

end WebSD

end Handheld
