import Handheld.ByteString

/-!
# A TCP connection (`AsyncTCP.cpp`)

What `AsyncClient` gives to lwIP: `_tcp_write` puts a copy of the bytes behind those
that wait in the send buffer, at most as many as there is room for.

Results: `add_eq`, `write_snd`. What is taken is what there is room for.
-/

namespace Handheld

open ByteString

/-- The TCP connection: whether it is established, all bytes that were given to it,
and the room in its send buffer. -/
structure AsyncClient where
  established : Bool
  wire : Bytes
  sndbuf : Nat

namespace AsyncClient

/-! ## Definitions -/

def space (c : AsyncClient) : Nat := if c.established then c.sndbuf else 0

def canSend (c : AsyncClient) : Bool := decide (0 < c.space)

/-- `add`, where `_tcp_write` answers `ERR_OK` or not. -/
def add (ok : Bool) (data : Bytes) (c : AsyncClient) : Nat × AsyncClient :=
  if data = [] then (0, c)
  else if c.space = 0 then (0, c)
  else
    let willSend := min c.space data.length
    if ok then (willSend, { c with wire := c.wire ++ data.take willSend, sndbuf := c.sndbuf - willSend })
    else (0, c)

/-- `write`, where `_tcp_output` answers `ERR_OK` or not. -/
def write (ok output : Bool) (data : Bytes) (c : AsyncClient) : Nat × AsyncClient :=
  let willSend := c.add ok data
  if willSend.1 = 0 ∨ !output then (0, willSend.2) else willSend

def close (c : AsyncClient) : AsyncClient := { c with established := false }

def abort (c : AsyncClient) : AsyncClient := { c with established := false }

/-- With more bytes. -/
def sent (bytes : Bytes) (c : AsyncClient) : AsyncClient :=
  { c with wire := c.wire ++ bytes, sndbuf := c.sndbuf - bytes.length }

/-! ## What is taken -/

variable {c : AsyncClient} {data : Bytes}

theorem sent_nil (c : AsyncClient) : c.sent [] = c := by
  unfold sent
  rw [List.append_nil]
  rfl

theorem space_sent (bytes : Bytes) (c : AsyncClient) : (c.sent bytes).space = c.space - bytes.length := by
  unfold space sent
  dsimp only
  split_ifs
  · rfl
  · exact (Nat.zero_sub _).symm

theorem sent_sent (a b : Bytes) (c : AsyncClient) : (c.sent a).sent b = c.sent (a ++ b) := by
  unfold sent
  simp only [List.append_assoc, List.length_append, Nat.sub_sub]

theorem add_refused (c : AsyncClient) (data : Bytes) : c.add false data = (0, c) := by
  unfold add
  simp

theorem add_eq (data : Bytes) (c : AsyncClient) :
    c.add true data = (min c.space data.length, c.sent (data.take c.space)) := by
  unfold add
  rw [if_pos rfl]
  split_ifs with hnil hspace
  · rw [hnil, List.take_nil, sent_nil, List.length_nil, Nat.min_zero]
  · rw [hspace, Nat.zero_min, List.take_zero, sent_nil]
  · rw [← List.take_eq_take_min]
    unfold sent
    rw [List.length_take]

theorem add_ok (hroom : data.length ≤ c.space) : c.add true data = (data.length, c.sent data) := by
  rw [add_eq, min_eq_right hroom, List.take_of_length_le hroom]

theorem write_snd (output : Bool) (data : Bytes) (c : AsyncClient) :
    (c.write true output data).2 = c.sent (data.take c.space) := by
  unfold write
  rw [add_eq]
  dsimp only
  split_ifs <;> rfl

theorem write_established (ok output : Bool) (data : Bytes) (c : AsyncClient) :
    (c.write ok output data).2.established = c.established := by
  unfold write add
  dsimp only
  split_ifs <;> rfl

theorem write_fst (data : Bytes) (c : AsyncClient) : (c.write true true data).1 = min c.space data.length := by
  unfold write
  rw [add_eq]
  dsimp only
  split_ifs with h
  · rw [or_iff_left (by decide)] at h
    exact h.symm
  · rfl

end AsyncClient

end Handheld
