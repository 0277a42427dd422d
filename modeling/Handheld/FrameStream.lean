import Handheld.ByteString

/-!
# Streams of frames

A frame is two bytes with a flag, an opcode and a length of seven bits, which may
be an escape for a length of two or eight bytes, and its payload. A frame with an
opcode from 8 on stands alone. The others are fragments of messages: the first one
has the kind of the message for its opcode, the later ones have 0, and the flag
marks the last.

* `readFrame_append`, `Reads.append`: what follows a frame does not matter to it.
* `Received.control`, `Received.fragment`: what one more frame makes of what a
  reader has received.
-/

namespace FrameStream

open ByteString

structure Frame where
  final : Bool
  opcode : Nat
  payload : Bytes
deriving DecidableEq, Repr

/-- The length that `code` stands for, and what follows it. A masked frame, which
has `code` from 128 on, is not read. -/
def readLength (code : Nat) (data : Bytes) : Option (Nat × Bytes) :=
  if code < 126 then some (code, data)
  else if code = 126 ∧ 2 ≤ data.length then some (bigEndian (data.take 2), data.drop 2)
  else if code = 127 ∧ 8 ≤ data.length then some (bigEndian (data.take 8), data.drop 8)
  else none

/-- The first frame of a stream, and what follows it. -/
def readFrame : Bytes → Option (Frame × Bytes)
  | b0 :: b1 :: data =>
    (readLength b1.toNat data).bind fun r =>
      if r.1 ≤ r.2.length then
        some (⟨decide (128 ≤ b0.toNat), b0.toNat % 16, r.2.take r.1⟩, r.2.drop r.1)
      else none
  | _ => none

/-- The stream consists of the frames. -/
inductive Reads : Bytes → List Frame → Prop
  | nil : Reads [] []
  | cons {data rest : Bytes} {f : Frame} {fs : List Frame} :
      readFrame data = some (f, rest) → Reads rest fs → Reads data (f :: fs)

/-- The messages that are complete, and the one that is not. -/
structure Reassembly where
  underway : Option (Nat × Bytes)
  messages : List (Nat × Bytes)
deriving DecidableEq, Repr

namespace Reassembly

def empty : Reassembly := ⟨none, []⟩

/-- The message with one more fragment: only its first one says a kind. -/
def extend (f : Frame) : Option (Nat × Bytes) → Option (Nat × Bytes)
  | none => if f.opcode = 0 then none else some (f.opcode, f.payload)
  | some (kind, part) => if f.opcode = 0 then some (kind, part ++ f.payload) else none

/-- One more frame. -/
def accept (r : Reassembly) (f : Frame) : Option Reassembly :=
  if 8 ≤ f.opcode then some r
  else (extend f r.underway).map fun m =>
    if f.final then ⟨none, r.messages ++ [m]⟩ else ⟨some m, r.messages⟩

end Reassembly

/-- Who reads the stream has `r`. -/
def Received (data : Bytes) (r : Reassembly) : Prop :=
  ∃ fs, Reads data fs ∧ fs.foldlM Reassembly.accept .empty = some r

/-! ## Reading on -/

theorem readLength_append {code n : Nat} {data rest : Bytes} (h : readLength code data = some (n, rest))
    (more : Bytes) : readLength code (data ++ more) = some (n, rest ++ more) := by
  unfold readLength at h ⊢
  split_ifs at h with hshort hmedium hlong
  · cases h
    rw [if_pos hshort]
  · cases h
    have hmore : code = 126 ∧ 2 ≤ (data ++ more).length :=
      ⟨hmedium.1, hmedium.2.trans (List.length_append ▸ Nat.le_add_right _ _)⟩
    rw [if_neg hshort, if_pos hmore, List.take_append_of_le_length hmedium.2,
      List.drop_append_of_le_length hmedium.2]
  · cases h
    have hnot : ¬ (code = 126 ∧ 2 ≤ (data ++ more).length) := by
      rintro ⟨hcode, -⟩
      rw [hlong.1] at hcode
      cases hcode
    have hmore : code = 127 ∧ 8 ≤ (data ++ more).length :=
      ⟨hlong.1, hlong.2.trans (List.length_append ▸ Nat.le_add_right _ _)⟩
    rw [if_neg hshort, if_neg hnot, if_pos hmore, List.take_append_of_le_length hlong.2,
      List.drop_append_of_le_length hlong.2]

theorem readFrame_append {data rest : Bytes} {f : Frame} (h : readFrame data = some (f, rest))
    (more : Bytes) : readFrame (data ++ more) = some (f, rest ++ more) := by
  match data with
  | [] => cases h
  | [_] => cases h
  | b0 :: b1 :: data =>
    unfold readFrame at h
    obtain ⟨⟨n, payload⟩, hlength, h⟩ := Option.bind_eq_some_iff.mp h
    split_ifs at h with hn
    cases h
    show (readLength b1.toNat (data ++ more)).bind _ = _
    have hn' : n ≤ (payload ++ more).length := by
      rw [List.length_append]
      exact hn.trans (Nat.le_add_right _ _)
    rw [readLength_append hlength, Option.bind_some, if_pos hn', List.take_append_of_le_length hn,
      List.drop_append_of_le_length hn]

theorem Reads.append {a b : Bytes} {fs gs : List Frame} (ha : Reads a fs) (hb : Reads b gs) :
    Reads (a ++ b) (fs ++ gs) := by
  induction ha with
  | nil => exact hb
  | cons hread _ ih => exact .cons (readFrame_append hread b) ih

theorem received_nil : Received [] .empty := ⟨[], .nil, rfl⟩

/-- One more fragment. -/
theorem Received.fragment {data bytes : Bytes} {r r' : Reassembly} {f : Frame} (h : Received data r)
    (hread : readFrame bytes = some (f, [])) (haccept : r.accept f = some r') :
    Received (data ++ bytes) r' := by
  obtain ⟨fs, hreads, hfold⟩ := h
  refine ⟨fs ++ [f], hreads.append (.cons hread .nil), ?_⟩
  rw [List.foldlM_append, hfold]
  show (r.accept f >>= _) = _
  rw [haccept]
  rfl

/-- A frame that stands alone. -/
theorem Received.control {data bytes : Bytes} {r : Reassembly} {f : Frame} (h : Received data r)
    (hread : readFrame bytes = some (f, [])) (hcontrol : 8 ≤ f.opcode) : Received (data ++ bytes) r :=
  h.fragment hread (if_pos hcontrol)

/-- The first fragment of a message. -/
theorem Reassembly.accept_first {f : Frame} (hopcode : f.opcode ≠ 0) (hdata : f.opcode < 8)
    (messages : List (Nat × Bytes)) :
    (⟨none, messages⟩ : Reassembly).accept f =
      some (if f.final then ⟨none, messages ++ [(f.opcode, f.payload)]⟩
        else ⟨some (f.opcode, f.payload), messages⟩) := by
  unfold accept extend
  rw [if_neg (Nat.not_le.mpr hdata), if_neg hopcode]
  rfl

/-- A later fragment. -/
theorem Reassembly.accept_later {f : Frame} (hopcode : f.opcode = 0) (kind : Nat) (part : Bytes)
    (messages : List (Nat × Bytes)) :
    (⟨some (kind, part), messages⟩ : Reassembly).accept f =
      some (if f.final then ⟨none, messages ++ [(kind, part ++ f.payload)]⟩
        else ⟨some (kind, part ++ f.payload), messages⟩) := by
  unfold accept extend
  rw [if_neg (by rw [hopcode]; decide)]
  dsimp only
  rw [if_pos hopcode]
  rfl

end FrameStream
