import Handheld.ByteString
import Mathlib.Algebra.GroupWithZero.Nat
import Mathlib.Data.List.SplitLengths

/-!
# Web text commands (`AsyncWebSocket.cpp`, `WebSerialMonitor.cpp`)

`_onData` takes the bytes of one TCP segment and raises `WS_EVT_DATA` for every
piece of a frame in it; `handleEvent` calls the command callback for every such
event, without a look at the frame information.

Results:
1. `parseHeader_start`: what is read as a header at the start of a frame, and the
   place where the frame is then taken to end, depend on the cut only.
2. `one_command_iff`: a message split into any frames and any segments is one
   command exactly when it is one frame whose payload arrives in one piece.
-/

namespace Handheld

open ByteString

namespace WebSocket

/-! ## Definitions -/

/-- `AwsFrameInfo`. -/
structure FrameInfo where
  messageOpcode : Nat
  num : Nat
  final : Bool
  masked : Bool
  opcode : Nat
  len : Nat
  mask : Fin 4 → UInt8
  index : Nat

/-- The members `_pstate` and `_pinfo` of `AsyncWebSocketClient`. -/
structure Client where
  pstate : Bool
  pinfo : FrameInfo

/-- The constructor: `_pinfo` is filled with zeros. -/
def Client.connected : Client :=
  ⟨false, ⟨0, 0, false, false, 0, 0, fun _ => 0, 0⟩⟩

/-- What `_onData` raises: `WS_EVT_DATA`, or the handling of a control frame
(close, ping or pong). -/
inductive Event
  | data (info : FrameInfo) (payload : Bytes)
  | control (opcode : Nat) (payload : Bytes)

/-- The range of the 32-bit `size_t`. -/
def sizeRange : Nat := 2 ^ 32

/-- The 16-bit and 64-bit lengths, if the segment has the bytes. -/
def extendedLength (info : FrameInfo) (data : Bytes) : FrameInfo × Bytes :=
  if info.len = 126 ∧ 2 ≤ data.length then
    ({ info with len := bigEndian (data.take 2) }, data.drop 2)
  else if info.len = 127 ∧ 8 ≤ data.length then
    ({ info with len := bigEndian (data.take 8) }, data.drop 8)
  else (info, data)

/-- The masking key, if the segment has the bytes. -/
def maskingKey (info : FrameInfo) (data : Bytes) : FrameInfo × Bytes :=
  if info.masked ∧ 4 ≤ data.length then
    ({ info with mask := fun i => data.getD i 0 }, data.drop 4)
  else (info, data)

/-- The block `if (!_pstate)`. A segment of one byte is read beyond its end: no result. -/
def parseHeader (info : FrameInfo) : Bytes → Option (FrameInfo × Bytes)
  | b0 :: b1 :: data =>
    let info := { info with
      index := 0
      final := decide (128 ≤ b0.toNat)
      opcode := b0.toNat % 16
      masked := decide (128 ≤ b1.toNat)
      len := b1.toNat % 128 }
    let (info, data) := extendedLength info data
    some (maskingKey info data)
  | _ => none

/-- `data[i] ^= _pinfo.mask[(_pinfo.index + i) % 4]`. -/
def unmask (info : FrameInfo) (data : Bytes) : Bytes :=
  if info.masked then
    data.mapIdx fun i b => b ^^^ info.mask ⟨(info.index + i) % 4, Nat.mod_lt _ (by decide)⟩
  else data

/-- The rest of the loop body: one piece of the payload, what it raises, and the
bytes after it. The frame error ends the loop, so it leaves no bytes. -/
def takePiece (pstate : Bool) (info : FrameInfo) (data : Bytes) : Client × List Event × Bytes :=
  let datalen := min ((info.len - info.index) % sizeRange) data.length
  let piece := unmask info (data.take datalen)
  if info.index + datalen < info.len then
    -- the frame goes on; a piece without bytes raises nothing
    let info := if info.index = 0 ∧ info.opcode ≠ 0 then
      { info with messageOpcode := info.opcode, num := 0 } else info
    (⟨true, { info with index := info.index + datalen }⟩,
      if 0 < datalen then [.data info piece] else [], data.drop datalen)
  else if info.index + datalen = info.len then
    if info.opcode < 8 then
      (⟨false, { info with num := if info.final then 0 else (info.num + 1) % 2 ^ 32 }⟩,
        [.data info piece], data.drop datalen)
    else
      (⟨false, info⟩, if info.opcode ≤ 10 then [.control info.opcode piece] else [],
        data.drop datalen)
  -- the frame error
  else (⟨pstate, info⟩, [], [])

/-- `while (plen > 0)`. A turn that consumes nothing repeats itself: no result. -/
def onDataLoop : Nat → Client → Bytes → Option (Client × List Event)
  | 0, client, data => if data = [] then some (client, []) else none
  | fuel + 1, client, data =>
    if data = [] then some (client, [])
    else
      match if client.pstate then some (client.pinfo, data) else parseHeader client.pinfo data with
      | some (info, data) =>
        let (client, events, rest) := takePiece client.pstate info data
        (onDataLoop fuel client rest).map fun r => (r.1, events ++ r.2)
      | none => none

/-- `_onData`. Every turn of the loop that ends consumes a byte. -/
def onData (client : Client) (data : Bytes) : Option (Client × List Event) :=
  onDataLoop data.length client data

/-- The segments one after the other. -/
def receive (client : Client) : List Bytes → Option (Client × List Event)
  | [] => some (client, [])
  | segment :: segments =>
    match onData client segment with
    | some (client, events) => (receive client segments).map fun r => (r.1, events ++ r.2)
    | none => none

/-- `handleEvent`: the text of the command callback, if the event calls it. -/
def handleEvent : Event → Option Bytes
  | .data _ payload => some (trim payload)
  | .control _ _ => none

/-- The calls of the command callback for the segments of a connection. -/
def commands (client : Client) (segments : List Bytes) : Option (List Bytes) :=
  (receive client segments).map fun r => r.2.filterMap handleEvent

/-! ## Messages as a client sends them -/

/-- One frame of a message: its payload, and the masking key the client chose. -/
structure Frame where
  payload : Bytes
  mask : Fin 4 → UInt8
  short : payload.length < 2 ^ 64

/-- The seven-bit length and the extended length. -/
def lengthCode (n : Nat) : Nat × Bytes :=
  if n < 126 then (n, [])
  else if n < 2 ^ 16 then (126, toBigEndian 2 n)
  else (127, toBigEndian 8 n)

/-- A text or a continuation frame. -/
def opcodeOf (first : Bool) : Nat := if first then 1 else 0

def Frame.header (f : Frame) (first final : Bool) : Bytes :=
  UInt8.ofNat ((if final then 128 else 0) + opcodeOf first) ::
    UInt8.ofNat (128 + (lengthCode f.payload.length).1) ::
      ((lengthCode f.payload.length).2 ++ List.ofFn f.mask)

def Frame.body (f : Frame) : Bytes :=
  f.payload.mapIdx fun i b => b ^^^ f.mask ⟨i % 4, Nat.mod_lt _ (by decide)⟩

/-- The bytes of the frames of a message, from the first one or a later one. -/
def wire : Bool → List Frame → Bytes
  | _, [] => []
  | first, [f] => f.header first true ++ f.body
  | first, f :: fs => f.header first false ++ f.body ++ wire false fs

def headerSize (n : Nat) : Nat := 6 + (lengthCode n).2.length

def frameSize (n : Nat) : Nat := headerSize n + n

/-- A message as it is split: the payloads of its frames, and the lengths of the
segments that carry the bytes of the frames. -/
structure Split where
  payloads : List Bytes
  sizes : List Nat
  nonempty : payloads ≠ []
  short : ∀ p ∈ payloads, p.length < 2 ^ 64
  pos : ∀ n ∈ sizes, 0 < n
  sum_eq : sizes.sum = (payloads.map fun p => frameSize p.length).sum

def Split.segments (s : Split) (frames : List Frame) : List Bytes :=
  s.sizes.splitLengths (wire true frames)

/-- Whatever came before and whatever masking keys the client chooses: the message
is one call of the command callback, with its text stripped. -/
def Split.OneCommand (s : Split) : Prop :=
  ∀ (c : Client) (frames : List Frame), c.pstate = false →
    frames.map Frame.payload = s.payloads →
      commands c (s.segments frames) = some [trim s.payloads.flatten]

/-- One frame, in one segment or cut behind its header. -/
def Split.Whole (s : Split) : Prop :=
  ∃ m, s.payloads = [m] ∧ m.length < sizeRange ∧
    (s.sizes = [frameSize m.length] ∨ s.sizes = [headerSize m.length, m.length])

/-! ## 1. One frame -/

/-- What the header of a frame is parsed to. -/
def Frame.info (f : Frame) (old : FrameInfo) (first final : Bool) : FrameInfo :=
  ⟨old.messageOpcode, old.num, final, true, opcodeOf first, f.payload.length, f.mask, 0⟩

theorem opcodeOf_lt (first : Bool) : opcodeOf first < 8 := by
  cases first <;> decide

theorem length_header (f : Frame) (first final : Bool) :
    (f.header first final).length = headerSize f.payload.length := by
  unfold Frame.header headerSize
  simp
  omega

theorem length_body (f : Frame) : f.body.length = f.payload.length := by
  simp [Frame.body]

theorem lengthCode_le (n : Nat) : (lengthCode n).1 ≤ 127 := by
  unfold lengthCode
  split
  · simp only
    omega
  · split <;> simp

theorem extendedLength_lengthCode (info : FrameInfo) {n : Nat} (hn : n < 2 ^ 64)
    (hlen : info.len = (lengthCode n).1) (data : Bytes) :
    extendedLength info ((lengthCode n).2 ++ data) = ({ info with len := n }, data) := by
  unfold lengthCode at hlen ⊢
  unfold extendedLength
  by_cases hshort : n < 126
  · rw [if_pos hshort] at hlen ⊢
    simp only at hlen
    rw [if_neg (by omega), if_neg (by omega), ← hlen]
    rfl
  · rw [if_neg hshort] at hlen ⊢
    by_cases hmedium : n < 2 ^ 16
    · rw [if_pos hmedium] at hlen ⊢
      have hvalue : bigEndian (toBigEndian 2 n) = n := by
        rw [bigEndian_toBigEndian, Nat.mod_eq_of_lt (by omega)]
      have htake : (toBigEndian 2 n ++ data).take 2 = toBigEndian 2 n :=
        List.take_left' (length_toBigEndian 2 n)
      have hdrop : (toBigEndian 2 n ++ data).drop 2 = data :=
        List.drop_left' (length_toBigEndian 2 n)
      rw [if_pos ⟨hlen, by simp⟩]
      simp only [htake, hdrop, hvalue]
    · rw [if_neg hmedium] at hlen ⊢
      have hvalue : bigEndian (toBigEndian 8 n) = n := by
        rw [bigEndian_toBigEndian, Nat.mod_eq_of_lt (by omega)]
      have htake : (toBigEndian 8 n ++ data).take 8 = toBigEndian 8 n :=
        List.take_left' (length_toBigEndian 8 n)
      have hdrop : (toBigEndian 8 n ++ data).drop 8 = data :=
        List.drop_left' (length_toBigEndian 8 n)
      have hlong : info.len = 127 := hlen
      rw [if_neg (by omega), if_pos ⟨hlong, by simp⟩]
      simp only [htake, hdrop, hvalue]

theorem maskingKey_ofFn {info : FrameInfo} (hmasked : info.masked = true) (mask : Fin 4 → UInt8)
    (data : Bytes) :
    maskingKey info (List.ofFn mask ++ data) = ({ info with mask := mask }, data) := by
  have hlength : (List.ofFn mask).length = 4 := List.length_ofFn
  have hmask : (fun i : Fin 4 => (List.ofFn mask ++ data).getD i 0) = mask := by
    funext i
    have hi : (i : Nat) < (List.ofFn mask).length := by omega
    rw [List.getD_eq_getElem?_getD, List.getElem?_append_left hi, List.getElem?_eq_getElem hi,
      Option.getD_some, List.getElem_ofFn]
  unfold maskingKey
  rw [if_pos ⟨hmasked, by simp⟩, hmask, List.drop_left' hlength]

/-- What its first two bytes are parsed to. -/
def FrameInfo.opening (old : FrameInfo) (n : Nat) (first final : Bool) : FrameInfo :=
  ⟨old.messageOpcode, old.num, final, true, opcodeOf first, (lengthCode n).1, old.mask, 0⟩

theorem parseHeader_cons (old : FrameInfo) (n : Nat) (first final : Bool) (data : Bytes) :
    parseHeader old (UInt8.ofNat ((if final then 128 else 0) + opcodeOf first) ::
        UInt8.ofNat (128 + (lengthCode n).1) :: data) =
      some (maskingKey (extendedLength (old.opening n first final) data).1
        (extendedLength (old.opening n first final) data).2) := by
  have hb0 : (UInt8.ofNat ((if final then 128 else 0) + opcodeOf first)).toNat =
      (if final then 128 else 0) + opcodeOf first := by
    cases final <;> cases first <;> decide
  have hcode := lengthCode_le n
  have hb1 : (UInt8.ofNat (128 + (lengthCode n).1)).toNat = 128 + (lengthCode n).1 := by
    rw [UInt8.toNat_ofNat']
    omega
  have hfinal : decide (128 ≤ (if final then 128 else 0) + opcodeOf first) = final := by
    cases final <;> cases first <;> decide
  have hopcode : ((if final then 128 else 0) + opcodeOf first) % 16 = opcodeOf first := by
    cases final <;> cases first <;> decide
  have hlen : (128 + (lengthCode n).1) % 128 = (lengthCode n).1 := by
    omega
  have hmasked : decide (128 ≤ 128 + (lengthCode n).1) = true := by simp
  unfold parseHeader FrameInfo.opening
  simp only [hb0, hb1, hfinal, hopcode, hlen, hmasked]

/-- A whole header is read as it was written. -/
theorem parseHeader_header (old : FrameInfo) (f : Frame) (first final : Bool) (data : Bytes) :
    parseHeader old (f.header first final ++ data) = some (f.info old first final, data) := by
  unfold Frame.header
  rw [List.cons_append, List.cons_append, parseHeader_cons, List.append_assoc,
    extendedLength_lengthCode _ f.short rfl]
  simp only
  rw [maskingKey_ofFn rfl]
  rfl

theorem maskingKey_short {info : FrameInfo} {data : Bytes} (h : data.length < 4) :
    maskingKey info data = (info, data) := by
  unfold maskingKey
  rw [if_neg (by omega)]

/-- Where the frame is taken to end, if its first `h` bytes arrive together: the
key may be missing, or some of the length too. -/
def takenEnd (n h : Nat) : Nat :=
  if headerSize n ≤ h then frameSize n
  else if headerSize n ≤ h + 4 then headerSize n - 4 + n
  else (if h < 6 then 2 else 6) + (lengthCode n).1

/-- `data` is read as `eaten`, the header, and `left`, the first bytes of the
payload; the end of the payload is at `stop`. -/
structure StartsFrame (old : FrameInfo) (data : Bytes) (stop : Nat) (info : FrameInfo)
    (eaten left : Bytes) : Prop where
  data_eq : data = eaten ++ left
  parse : parseHeader old data = some (info, left)
  opcode : info.opcode < 8
  index : info.index = 0
  eaten_ne : eaten ≠ []
  stop_eq : eaten.length + info.len = stop

theorem extendedLength_short {info : FrameInfo} {data : Bytes} (hmedium : info.len = 126 → data.length < 2)
    (hlong : info.len = 127 → data.length < 8) : extendedLength info data = (info, data) := by
  unfold extendedLength
  rw [if_neg fun h => absurd (hmedium h.1) (by omega),
    if_neg fun h => absurd (hlong h.1) (by omega)]

/-- The length is there, the key is not. -/
theorem readKey_cut (info : FrameInfo) {n : Nat} (hn : n < 2 ^ 64)
    (hlen : info.len = (lengthCode n).1) {mask : Fin 4 → UInt8} {data more : Bytes}
    (hdata : data ++ more = (lengthCode n).2 ++ List.ofFn mask) (hmore : more ≠ [])
    (hlength : (lengthCode n).2.length ≤ data.length) :
    ∃ left, data = (lengthCode n).2 ++ left ∧
      maskingKey (extendedLength info data).1 (extendedLength info data).2 =
        ({ info with len := n }, left) := by
  obtain ⟨left, rfl⟩ : ∃ left, data = (lengthCode n).2 ++ left := by
    have hprefix : (lengthCode n).2 <+: data :=
      List.prefix_of_prefix_length_le (List.prefix_append _ _) ⟨more, hdata⟩ hlength
    obtain ⟨left, hleft⟩ := hprefix
    exact ⟨left, hleft.symm⟩
  have hshort : left.length < 4 := by
    have hsum := congrArg List.length hdata
    have hpos := List.length_pos_of_ne_nil hmore
    simp at hsum
    omega
  refine ⟨left, rfl, ?_⟩
  rw [extendedLength_lengthCode info hn hlen, maskingKey_short hshort]

/-- The length is cut: it is not read, and four of its bytes count as the key. -/
theorem readLength_cut (info : FrameInfo) (hmasked : info.masked = true) {n : Nat}
    (hlen : info.len = (lengthCode n).1) {data : Bytes}
    (hlength : data.length < (lengthCode n).2.length) :
    ∃ eaten left mask, data = eaten ++ left ∧
      eaten.length = (if data.length < 4 then 0 else 4) ∧
      maskingKey (extendedLength info data).1 (extendedLength info data).2 =
        ({ info with mask := mask }, left) := by
  have hsame : extendedLength info data = (info, data) := by
    unfold lengthCode at hlen hlength
    apply extendedLength_short
    · intro hmedium
      split at hlen
      · simp only at hlen
        omega
      · rename_i hn
        rw [if_neg hn] at hlength
        split at hlen
        · rename_i hn'
          rw [if_pos hn'] at hlength
          simpa using hlength
        · simp only at hlen
          omega
    · intro hlong
      split at hlength
      · simp at hlength
      · split at hlength <;> simp at hlength <;> omega
  rw [hsame]
  by_cases hfour : data.length < 4
  · exact ⟨[], data, info.mask, rfl, by simp [hfour], maskingKey_short hfour⟩
  · refine ⟨data.take 4, data.drop 4, fun i => data.getD i 0, (List.take_append_drop 4 data).symm,
      ?_, ?_⟩
    · rw [if_neg hfour, List.length_take, Nat.min_eq_left (by omega)]
    · unfold maskingKey
      rw [if_pos ⟨hmasked, Nat.le_of_not_lt hfour⟩]

/-- A cut header: the length or the key is missing. -/
theorem parseHeader_cut (old : FrameInfo) (f : Frame) (first final : Bool) {data more : Bytes}
    (htwo : 2 ≤ data.length) (hheader : data ++ more = f.header first final) (hmore : more ≠ []) :
    ∃ info eaten left,
      StartsFrame old data (takenEnd f.payload.length data.length) info eaten left := by
  have hlength := congrArg List.length hheader
  rw [List.length_append, length_header] at hlength
  have hpos := List.length_pos_of_ne_nil hmore
  unfold takenEnd
  rw [if_neg (by omega)]
  match data, htwo with
  | b0 :: b1 :: data, _ =>
    unfold Frame.header at hheader
    simp only [List.cons_append] at hheader
    injection hheader with hb0 hheader
    injection hheader with hb1 hheader
    have hparse := parseHeader_cons old f.payload.length first final data
    rw [← hb0, ← hb1] at hparse
    unfold headerSize
    by_cases hwhole : (lengthCode f.payload.length).2.length ≤ data.length
    · obtain ⟨left, hleft, hkey⟩ := readKey_cut (old.opening f.payload.length first final)
        f.short rfl hheader hmore hwhole
      refine ⟨_, b0 :: b1 :: (lengthCode f.payload.length).2, left, ?_, hparse.trans (by rw [hkey]),
        opcodeOf_lt first, rfl, by simp, ?_⟩
      · rw [hleft]
        rfl
      · rw [if_pos (by simp only [List.length_cons]; omega)]
        simp only [List.length_cons]
        omega
    · obtain ⟨eaten, left, mask, hleft, hlen, hkey⟩ :=
        readLength_cut (old.opening f.payload.length first final) rfl rfl
          (Nat.lt_of_not_le hwhole)
      refine ⟨_, b0 :: b1 :: eaten, left, ?_, hparse.trans (by rw [hkey]), opcodeOf_lt first, rfl,
        by simp, ?_⟩
      · rw [hleft]
        rfl
      · rw [if_neg (by simp only [List.length_cons]; omega)]
        simp only [List.length_cons, hlen, FrameInfo.opening]
        by_cases hfour : data.length < 4
        · rw [if_pos hfour, if_pos (by omega)]
        · rw [if_neg hfour, if_neg (by omega)]

/-- The key undoes itself. -/
theorem unmask_body (f : Frame) (old : FrameInfo) (first final : Bool) :
    unmask (f.info old first final) f.body = f.payload := by
  unfold unmask Frame.info Frame.body
  refine List.ext_getElem (by simp) fun i _ _ => ?_
  simp only [↓reduceIte, List.getElem_mapIdx, Nat.zero_add, UInt8.xor_assoc, UInt8.xor_self,
    UInt8.xor_zero]

/-! ## Turns of the loop -/

/-- Inside a frame of `len` bytes, at offset `index`. -/
structure Inside (c : Client) (index len : Nat) : Prop where
  pstate : c.pstate = true
  len_eq : c.pinfo.len = len
  index_eq : c.pinfo.index = index
  opcode : c.pinfo.opcode < 8
  lt : index < len

/-- The texts of the command callback. -/
def callbacks (events : List Event) : List Bytes := events.filterMap handleEvent

theorem onDataLoop_nil (fuel : Nat) (c : Client) : onDataLoop fuel c [] = some (c, []) := by
  cases fuel <;> rfl

/-- A turn at the start of a frame. -/
theorem onDataLoop_start {c : Client} (hc : c.pstate = false) {info : FrameInfo} {data left : Bytes}
    (hparse : parseHeader c.pinfo data = some (info, left)) (fuel : Nat) :
    onDataLoop (fuel + 1) c data =
      (onDataLoop fuel (takePiece false info left).1 (takePiece false info left).2.2).map
        fun r => (r.1, (takePiece false info left).2.1 ++ r.2) := by
  have hne : data ≠ [] := by
    rintro rfl
    cases hparse
  rw [onDataLoop, if_neg hne, hc, if_neg Bool.false_ne_true, hparse]

/-- A turn inside a frame. -/
theorem onDataLoop_inside {c : Client} (hc : c.pstate = true) {data : Bytes} (hne : data ≠ [])
    (fuel : Nat) :
    onDataLoop (fuel + 1) c data =
      (onDataLoop fuel (takePiece true c.pinfo data).1 (takePiece true c.pinfo data).2.2).map
        fun r => (r.1, (takePiece true c.pinfo data).2.1 ++ r.2) := by
  rw [onDataLoop, if_neg hne, hc, if_pos rfl]

section takePiece

variable {info : FrameInfo}

/-- The piece that ends its frame. -/
theorem takePiece_last (pstate : Bool) {data : Bytes} (hopcode : info.opcode < 8) (hindex : info.index ≤ info.len)
    (hsize : info.len - info.index < sizeRange) (hdata : info.len - info.index ≤ data.length) :
    (takePiece pstate info data).1.pstate = false ∧
      (takePiece pstate info data).2.1 =
        [.data info (unmask info (data.take (info.len - info.index)))] ∧
      (takePiece pstate info data).2.2 = data.drop (info.len - info.index) := by
  have hlen : min ((info.len - info.index) % sizeRange) data.length = info.len - info.index := by
    rw [Nat.mod_eq_of_lt hsize, Nat.min_eq_left hdata]
  unfold takePiece
  simp only [hlen]
  rw [if_neg (by omega), if_pos (by omega), if_pos hopcode]
  exact ⟨rfl, rfl, rfl⟩

/-- A piece after which the frame goes on. -/
theorem takePiece_partial (pstate : Bool) (data : Bytes) (hopcode : info.opcode < 8)
    (hlt : info.index + min ((info.len - info.index) % sizeRange) data.length < info.len) :
    let n := min ((info.len - info.index) % sizeRange) data.length
    Inside (takePiece pstate info data).1 (info.index + n) info.len ∧
      (callbacks (takePiece pstate info data).2.1).length = (if 0 < n then 1 else 0) ∧
      (takePiece pstate info data).2.2 = data.drop n := by
  unfold takePiece
  simp only [if_pos hlt]
  refine ⟨⟨rfl, ?_, ?_, ?_, hlt⟩, ?_, trivial⟩
  · split <;> rfl
  · split <;> rfl
  · split <;> exact hopcode
  · split <;> simp [callbacks, handleEvent]

end takePiece

/-- A frame of `2^32` bytes more than are left is never finished: the next byte
finds nothing to do. -/
theorem onDataLoop_stuck {index len : Nat} (hmod : (len - index) % sizeRange = 0) {data : Bytes}
    (hne : data ≠ []) : ∀ (fuel : Nat) {c : Client}, Inside c index len →
      onDataLoop fuel c data = none := by
  intro fuel
  induction fuel with
  | zero =>
    intro c _
    rw [onDataLoop, if_neg hne]
  | succ fuel ih =>
    intro c hc
    obtain ⟨hpstate, hlen, hindex, hopcode, hlt⟩ := hc
    have hzero : min ((c.pinfo.len - c.pinfo.index) % sizeRange) data.length = 0 := by
      rw [hlen, hindex, hmod, Nat.zero_min]
    obtain ⟨hinside, -, hrest⟩ := takePiece_partial true data hopcode
      (by rw [hzero]; omega)
    rw [hzero, hindex, hlen] at hinside
    rw [hzero, List.drop_zero] at hrest
    rw [onDataLoop_inside hpstate hne, hrest, ih hinside, Option.map_none]

/-- What the rest of a turn's bytes and the next segments make of the state. -/
def resume (fuel : Nat) (c : Client) (data : Bytes) (segments : List Bytes) :
    Option (Client × List Event) :=
  match onDataLoop fuel c data with
  | some (c, events) => (receive c segments).map fun r => (r.1, events ++ r.2)
  | none => none

theorem receive_cons (c : Client) (segment : Bytes) (segments : List Bytes) :
    receive c (segment :: segments) = resume segment.length c segment segments := rfl

theorem resume_nil (fuel : Nat) (c : Client) (segments : List Bytes) :
    resume fuel c [] segments = receive c segments := by
  unfold resume
  rw [onDataLoop_nil]
  simp

/-- One turn, then the rest. -/
theorem resume_turn {fuel : Nat} {c : Client} {data : Bytes} {t : Client × List Event × Bytes}
    (h : onDataLoop (fuel + 1) c data =
      (onDataLoop fuel t.1 t.2.2).map fun r => (r.1, t.2.1 ++ r.2)) (segments : List Bytes) :
    resume (fuel + 1) c data segments =
      (resume fuel t.1 t.2.2 segments).map fun r => (r.1, t.2.1 ++ r.2) := by
  unfold resume
  rw [h]
  cases onDataLoop fuel t.1 t.2.2 with
  | none => rfl
  | some r =>
    cases hrest : receive r.1 segments <;> simp [hrest]

/-- A turn in a frame, at offset `info.index`: the frame ends, or it goes on in
the next segment, or it never ends. -/
theorem turn_cases {info : FrameInfo} (hopcode : info.opcode < 8) (hindex : info.index ≤ info.len)
    (pstate : Bool) (data : Bytes) :
    let t := takePiece pstate info data
    (info.len - info.index < sizeRange ∧ info.len - info.index ≤ data.length ∧
      t.1.pstate = false ∧ (callbacks t.2.1).length = 1 ∧
      t.2.2 = data.drop (info.len - info.index)) ∨
    (Inside t.1 (info.index + data.length) info.len ∧ t.2.2 = [] ∧
      (callbacks t.2.1).length = if data = [] then 0 else 1) ∨
    ∀ fuel, onDataLoop fuel t.1 t.2.2 = none := by
  by_cases hlast : info.len - info.index < sizeRange ∧ info.len - info.index ≤ data.length
  · obtain ⟨hpstate, hevents, hrest⟩ :=
      takePiece_last pstate hopcode hindex hlast.1 hlast.2
    refine .inl ⟨hlast.1, hlast.2, hpstate, ?_, hrest⟩
    rw [hevents]
    rfl
  · have hrange : 0 < sizeRange := by decide
    have hmod := Nat.mod_lt (info.len - info.index) hrange
    have hmodle := Nat.mod_le (info.len - info.index) sizeRange
    have hgo : info.index + min ((info.len - info.index) % sizeRange) data.length < info.len := by
      by_cases hsize : info.len - info.index < sizeRange
      · have hshort : ¬ info.len - info.index ≤ data.length := fun h => hlast ⟨hsize, h⟩
        omega
      · omega
    obtain ⟨hinside, hcount, hrest⟩ := takePiece_partial pstate data hopcode hgo
    -- 2^32 bytes or more may be left; the cast to `size_t` then takes too few
    by_cases hall : data.length ≤ (info.len - info.index) % sizeRange
    · rw [Nat.min_eq_right hall] at hinside hcount hrest
      refine .inr (.inl ⟨hinside, by simpa using hrest, ?_⟩)
      rw [hcount]
      cases data <;> simp
    · rw [Nat.min_eq_left (by omega)] at hinside hrest
      refine .inr (.inr fun fuel => ?_)
      rw [hrest]
      refine onDataLoop_stuck ?_ ?_ fuel hinside
      · rw [← Nat.sub_sub]
        exact Nat.sub_mod_eq_zero_of_mod_eq (Nat.mod_mod _ _).symm
      · intro hnil
        have hlen := congrArg List.length hnil
        rw [List.length_drop, List.length_nil] at hlen
        omega

/-! ## One frame over several segments -/

/-- The `n` bytes that a frame is short of are read: the pieces in `done`, then
`last` from a segment of which `data` is left. Each piece that is not empty, and
the last one in any case, is one callback. -/
def ReadsFrame (n : Nat) (segments : List Bytes) (r : Client × List Event) : Prop :=
  ∃ done last data rest fuel c r', segments = done ++ (last ++ data) :: rest ∧
    done.flatten.length + last.length = n ∧ last.length < sizeRange ∧ data.length ≤ fuel ∧
    c.pstate = false ∧ resume fuel c data rest = some r' ∧
    (callbacks r.2).length = (callbacks r'.2).length + (done.filter (· ≠ [])).length + 1

/-- A turn of the loop reads the frame, if the run comes to an end. -/
theorem readsFrame_turn {info : FrameInfo} (hopcode : info.opcode < 8)
    (hindex : info.index ≤ info.len) (pstate : Bool) {data : Bytes} {segments : List Bytes}
    {fuel : Nat} (hfuel : data.length - (info.len - info.index) ≤ fuel)
    (hrest : ∀ {c}, Inside c (info.index + data.length) info.len → ∀ r,
      receive c segments = some r → ReadsFrame (info.len - (info.index + data.length)) segments r)
    {r : Client × List Event}
    (hr : (resume fuel (takePiece pstate info data).1 (takePiece pstate info data).2.2
      segments).map (fun r => (r.1, (takePiece pstate info data).2.1 ++ r.2)) = some r) :
    ReadsFrame (info.len - info.index) (data :: segments) r := by
  obtain ⟨r', hr', rfl⟩ := Option.map_eq_some_iff.mp hr
  have hcallbacks : (callbacks ((takePiece pstate info data).2.1 ++ r'.2)).length =
      (callbacks (takePiece pstate info data).2.1).length + (callbacks r'.2).length := by
    simp [callbacks]
  rcases turn_cases hopcode hindex pstate data with
    ⟨hsize, hdata, hpstate, hcount, hleft⟩ | ⟨hinside, hleft, hcount⟩ | hstuck
  · rw [hleft] at hr'
    refine ⟨[], data.take (info.len - info.index), _, segments, fuel, _, r', ?_, ?_, ?_, ?_, hpstate,
      hr', ?_⟩
    · simp
    · rw [List.flatten_nil, List.length_nil, List.length_take, Nat.min_eq_left hdata, Nat.zero_add]
    · simpa [List.length_take, Nat.min_eq_left hdata] using hsize
    · simpa using hfuel
    · simp only
      rw [hcallbacks, hcount]
      simp
      omega
  · -- the segment is used up, and the next ones read on
    rw [hleft, resume_nil] at hr'
    obtain ⟨done, last, left, rest, fuel', c, r'', hsegments, hlen, hlast, hfuel', hc, hr'', hcount'⟩ :=
      hrest hinside r' hr'
    have hlt := hinside.lt
    refine ⟨data :: done, last, left, rest, fuel', c, r'', ?_, ?_, hlast, hfuel', hc, hr'', ?_⟩
    · simp [hsegments]
    · rw [List.flatten_cons, List.length_append]
      omega
    · simp only
      rw [hcallbacks, hcount, hcount']
      by_cases hnil : data = []
      · simp [hnil]
      · simp [hnil]
        omega
  · unfold resume at hr'
    rw [hstuck] at hr'
    exact absurd hr'.symm (Option.some_ne_none r')

theorem receive_inside {segments : List Bytes} :
    ∀ {c : Client} {index len : Nat}, Inside c index len → (∀ s ∈ segments, s ≠ []) →
      len - index ≤ segments.flatten.length → ∀ r, receive c segments = some r →
        ReadsFrame (len - index) segments r := by
  induction segments with
  | nil =>
    intro c index len hc _ hlen
    have hlt := hc.lt
    simp at hlen
    omega
  | cons segment segments ih =>
    intro c index len hc hne hlen r hr
    obtain ⟨hpstate, rfl, rfl, hopcode, hlt⟩ := hc
    have hsegment : segment ≠ [] := hne segment List.mem_cons_self
    obtain ⟨fuel, hfuel⟩ : ∃ n, segment.length = n + 1 :=
      ⟨segment.length - 1, by have := List.length_pos_of_ne_nil hsegment; omega⟩
    rw [receive_cons, hfuel, resume_turn (onDataLoop_inside hpstate hsegment fuel)] at hr
    rw [List.flatten_cons, List.length_append] at hlen
    refine readsFrame_turn hopcode hlt.le true (by omega) (fun hinside r' hr' => ?_) hr
    exact ih hinside (fun s hs => hne s (List.mem_cons_of_mem segment hs)) (by omega) r' hr'

/-- From the start of a frame. -/
theorem resume_start {c : Client} (hc : c.pstate = false) {data eaten left : Bytes} {stop : Nat}
    {info : FrameInfo} (h : StartsFrame c.pinfo data stop info eaten left) {segments : List Bytes}
    (hne : ∀ s ∈ segments, s ≠ []) (hlen : stop ≤ data.length + segments.flatten.length) {fuel : Nat}
    (hfuel : data.length ≤ fuel) {r : Client × List Event}
    (hr : resume fuel c data segments = some r) : ReadsFrame info.len (left :: segments) r := by
  obtain ⟨rfl, hparse, hopcode, hindex, heaten, rfl⟩ := h
  have hpos := List.length_pos_of_ne_nil heaten
  rw [List.length_append] at hfuel hlen
  obtain ⟨fuel, rfl⟩ : ∃ n, fuel = n + 1 := ⟨fuel - 1, by omega⟩
  rw [resume_turn (onDataLoop_start hc hparse fuel)] at hr
  have hreads : ReadsFrame (info.len - info.index) (left :: segments) r := by
    refine readsFrame_turn hopcode (by omega) false (by omega) (fun hinside r' hr' => ?_) hr
    exact receive_inside hinside hne (by omega) r' hr'
  rwa [hindex, Nat.sub_zero] at hreads

/-- `r` is what becomes of a connection between two frames with `stream` to come. -/
def Between (stream : Bytes) (r : Client × List Event) : Prop :=
  ∃ c data segments fuel, c.pstate = false ∧ data ++ segments.flatten = stream ∧
    (∀ s ∈ segments, s ≠ []) ∧ data.length ≤ fuel ∧ resume fuel c data segments = some r

/-- There are bytes to go on with, if any are to come. -/
theorem Between.exists_data {stream : Bytes} {r : Client × List Event} (h : Between stream r)
    (hstream : stream ≠ []) :
    ∃ c data segments fuel, c.pstate = false ∧ data ++ segments.flatten = stream ∧
      (∀ s ∈ segments, s ≠ []) ∧ data.length ≤ fuel ∧ resume fuel c data segments = some r ∧
        data ≠ [] := by
  obtain ⟨c, data, segments, fuel, hc, rfl, hne, hfuel, hr⟩ := h
  by_cases hdata : data = []
  · subst hdata
    cases segments with
    | nil => exact absurd rfl hstream
    | cons segment segments =>
      rw [resume_nil, receive_cons] at hr
      exact ⟨c, segment, segments, _, hc, by simp, fun s hs => hne s (List.mem_cons_of_mem segment hs),
        Nat.le_refl _, hr, hne segment List.mem_cons_self⟩
  · exact ⟨c, data, segments, fuel, hc, rfl, hne, hfuel, hr, hdata⟩

/-- What is left after `n` bytes. -/
theorem pieces_rest {n : Nat} {data last left : Bytes} {segments done rest : List Bytes}
    (hne : ∀ s ∈ segments, s ≠ []) (hsegments : data :: segments = done ++ (last ++ left) :: rest)
    (hsum : done.flatten.length + last.length = n) :
    left ++ rest.flatten = (data ++ segments.flatten).drop n ∧ ∀ s ∈ rest, s ≠ [] := by
  constructor
  · have hflat := congrArg List.flatten hsegments
    rw [List.flatten_cons] at hflat
    have hsplit : (done ++ (last ++ left) :: rest).flatten =
        (done.flatten ++ last) ++ (left ++ rest.flatten) := by simp
    rw [hflat, hsplit, List.drop_left' (by rw [List.length_append, hsum])]
  · intro s hs
    cases done with
    | nil =>
      obtain ⟨-, rfl⟩ := List.cons.inj hsegments
      exact hne s hs
    | cons d done =>
      obtain ⟨-, rfl⟩ := List.cons.inj hsegments
      exact hne s (by simp [hs])

/-- A frame that is read is one callback at least, and the next one starts behind it. -/
theorem ReadsFrame.between {n : Nat} {data : Bytes} {segments : List Bytes}
    {r : Client × List Event} (hne : ∀ s ∈ segments, s ≠ [])
    (h : ReadsFrame n (data :: segments) r) :
    ∃ r', Between ((data ++ segments.flatten).drop n) r' ∧
      (callbacks r'.2).length + 1 ≤ (callbacks r.2).length := by
  obtain ⟨done, last, left, rest, fuel, c, r', hsegments, hsum, -, hfuel, hc, hr', hcount⟩ := h
  obtain ⟨hstream, hrest⟩ := pieces_rest hne hsegments hsum
  exact ⟨r', ⟨c, left, rest, fuel, hc, hstream, hrest, hfuel, hr'⟩, by omega⟩

/-! ## 2. Messages -/

theorem wire_cons (first : Bool) (f : Frame) (fs : List Frame) :
    wire first (f :: fs) = f.header first fs.isEmpty ++ (f.body ++ wire false fs) := by
  cases fs with
  | nil => simp [wire]
  | cons g gs => simp [wire]

theorem six_le_headerSize (n : Nat) : 6 ≤ headerSize n := Nat.le_add_right 6 _

theorem wire_ne_nil (first : Bool) (f : Frame) (fs : List Frame) : wire first (f :: fs) ≠ [] := by
  rw [wire_cons]
  simp [Frame.header]

theorem length_wire (frames : List Frame) : ∀ first, (wire first frames).length =
    (frames.map fun f => frameSize f.payload.length).sum := by
  induction frames with
  | nil => intro first; rfl
  | cons f fs ih =>
    intro first
    rw [wire_cons, List.length_append, List.length_append, length_header, length_body, ih,
      List.map_cons, List.sum_cons]
    unfold frameSize
    omega

/-- A cut header is taken to end its frame early, behind the place of the key. -/
theorem takenEnd_lt {n h : Nat} (htwo : 2 ≤ h) (hcut : h < headerSize n) :
    headerSize n - 4 ≤ takenEnd n h ∧ takenEnd n h < frameSize n := by
  unfold takenEnd frameSize
  rw [if_neg (by omega)]
  split
  · have hsix := six_le_headerSize n
    omega
  · rename_i hshort
    unfold headerSize lengthCode at *
    by_cases hn : n < 126
    · simp only [if_pos hn, List.length_nil] at *
      omega
    · by_cases hn' : n < 2 ^ 16
      · simp only [if_neg hn, if_pos hn', length_toBigEndian] at *
        split <;> omega
      · simp only [if_neg hn, if_neg hn', length_toBigEndian] at *
        split <;> omega

theorem header_prefix {first : Bool} {f : Frame} {fs : List Frame} {data more : Bytes}
    (hwire : data ++ more = wire first (f :: fs)) (hwhole : headerSize f.payload.length ≤ data.length) :
    ∃ q, data = f.header first fs.isEmpty ++ q ∧ q ++ more = f.body ++ wire false fs := by
  rw [wire_cons] at hwire
  obtain ⟨q, hq⟩ := List.prefix_of_prefix_length_le (List.prefix_append (f.header first fs.isEmpty) _)
    ⟨more, hwire⟩ (by rwa [length_header])
  refine ⟨q, hq.symm, ?_⟩
  rw [← hq, List.append_assoc] at hwire
  exact List.append_cancel_left hwire

/-- What the start of a frame is parsed to, cut or not. -/
theorem parseHeader_start (old : FrameInfo) (first : Bool) (f : Frame) (fs : List Frame)
    {data more : Bytes} (hwire : data ++ more = wire first (f :: fs)) (htwo : 2 ≤ data.length) :
    ∃ info eaten left,
      StartsFrame old data (takenEnd f.payload.length data.length) info eaten left := by
  by_cases hwhole : headerSize f.payload.length ≤ data.length
  · obtain ⟨q, hq, -⟩ := header_prefix hwire hwhole
    refine ⟨f.info old first fs.isEmpty, f.header first fs.isEmpty, q, hq, ?_, opcodeOf_lt first, rfl,
      by simp [Frame.header], ?_⟩
    · rw [hq, parseHeader_header]
    · unfold takenEnd
      rw [if_pos hwhole, length_header]
      rfl
  · rw [wire_cons] at hwire
    have hheader := length_header f first fs.isEmpty
    obtain ⟨q, hq⟩ := List.prefix_of_prefix_length_le ⟨more, hwire⟩
      (List.prefix_append (f.header first fs.isEmpty) _) (by omega)
    refine parseHeader_cut old f first fs.isEmpty htwo hq ?_
    rintro rfl
    rw [List.append_nil] at hq
    rw [hq] at hwhole
    omega

/-- The end of a frame is taken to be inside it, so all the bytes up to there come. -/
theorem takenEnd_le {n h : Nat} (htwo : 2 ≤ h) : takenEnd n h ≤ frameSize n := by
  by_cases hwhole : headerSize n ≤ h
  · unfold takenEnd
    rw [if_pos hwhole]
  · exact (takenEnd_lt htwo (Nat.lt_of_not_le hwhole)).2.le

/-- A header of one byte is read beyond the end of its segment. -/
theorem resume_byte {c : Client} (hc : c.pstate = false) {b : UInt8} {fuel : Nat}
    (hfuel : [b].length ≤ fuel) (segments : List Bytes) : resume fuel c [b] segments = none := by
  obtain ⟨fuel, rfl⟩ : ∃ n, fuel = n + 1 := ⟨fuel - 1, by simp at hfuel; omega⟩
  unfold resume
  rw [onDataLoop, if_neg (List.cons_ne_nil b []), hc, if_neg Bool.false_ne_true]
  rfl

/-- The frame that is read at the start of a frame is one callback at least. -/
theorem resume_wire {c : Client} (hc : c.pstate = false) {first : Bool} {f : Frame} {fs : List Frame}
    {data : Bytes} {segments : List Bytes} (hdata : data ≠ [])
    (hwire : data ++ segments.flatten = wire first (f :: fs)) (hne : ∀ s ∈ segments, s ≠ [])
    {fuel : Nat} (hfuel : data.length ≤ fuel) {r : Client × List Event}
    (hr : resume fuel c data segments = some r) :
    2 ≤ data.length ∧
      ∃ r', Between ((wire first (f :: fs)).drop (takenEnd f.payload.length data.length)) r' ∧
        (callbacks r'.2).length + 1 ≤ (callbacks r.2).length := by
  have htwo : 2 ≤ data.length := by
    match data, hdata with
    | [b], _ =>
      rw [resume_byte hc hfuel] at hr
      cases hr
    | b0 :: b1 :: data, _ => simp
  refine ⟨htwo, ?_⟩
  obtain ⟨info, eaten, left, hstart⟩ := parseHeader_start c.pinfo first f fs hwire htwo
  have hle := takenEnd_le (n := f.payload.length) htwo
  have hlen := congrArg List.length hwire
  rw [List.length_append, length_wire, List.map_cons, List.sum_cons] at hlen
  obtain ⟨r', hr', hcount⟩ := (resume_start hc hstart hne (by omega) hfuel hr).between hne
  refine ⟨r', ?_, hcount⟩
  rw [← hwire, ← hstart.stop_eq, hstart.data_eq, List.append_assoc, ← List.drop_drop, List.drop_left]
  exact hr'

theorem maskingKey_cases (info : FrameInfo) (data : Bytes) :
    ∃ eaten left mask, data = eaten ++ left ∧ maskingKey info data = ({ info with mask := mask }, left) := by
  unfold maskingKey
  split
  · exact ⟨data.take 4, data.drop 4, _, (List.take_append_drop 4 data).symm, rfl⟩
  · exact ⟨[], data, info.mask, rfl, rfl⟩

/-- Two bytes that open a frame of length 0 are one callback at least. -/
theorem callbacks_of_empty {b0 : UInt8} {stream : Bytes} {r : Client × List Event}
    (hopcode : b0.toNat % 16 < 8) (hlen : ∀ b ∈ stream.head?, b.toNat % 128 = 0)
    (h : Between (b0 :: stream) r) : 1 ≤ (callbacks r.2).length := by
  obtain ⟨c, data, segments, fuel, hc, hstream, hne, hfuel, hr, hdata⟩ :=
    h.exists_data (List.cons_ne_nil b0 stream)
  match data, hdata with
  | [b], _ =>
    rw [resume_byte hc hfuel] at hr
    cases hr
  | b :: b1 :: data, _ =>
    obtain ⟨rfl, rfl⟩ := List.cons.inj hstream
    have hzero : b1.toNat % 128 = 0 := hlen b1 rfl
    obtain ⟨info, hparse, hinfo, hindex, hempty⟩ :
        ∃ info, parseHeader c.pinfo (b :: b1 :: data) = some (maskingKey info data) ∧
          info.opcode < 8 ∧ info.index = 0 ∧ info.len = 0 := by
      unfold parseHeader
      simp only
      rw [extendedLength_short (by simp [hzero]) (by simp [hzero])]
      exact ⟨_, rfl, hopcode, rfl, hzero⟩
    obtain ⟨eaten, left, mask, rfl, hkey⟩ := maskingKey_cases info data
    rw [hkey] at hparse
    have hstart : StartsFrame c.pinfo (b :: b1 :: (eaten ++ left)) (eaten.length + 2)
        { info with mask := mask } (b :: b1 :: eaten) left :=
      ⟨rfl, hparse, hinfo, hindex, by simp, by simp [hempty]⟩
    obtain ⟨r', -, hcount⟩ :=
      (resume_start hc hstart hne (by simp; omega) hfuel hr).between hne
    omega

/-- The bytes from the key on are the key's own pattern on four zeros and the payload. -/
theorem key_body (f : Frame) : List.ofFn f.mask ++ f.body =
    (List.replicate 4 0 ++ f.payload).mapIdx
      fun i b => b ^^^ f.mask ⟨i % 4, Nat.mod_lt _ (by decide)⟩ := by
  unfold Frame.body
  rw [List.mapIdx_append]
  congr 1
  · simp [List.ofFn_succ, List.replicate_succ]
  · simp

theorem head_wire (fs : List Frame) : ∀ b ∈ (wire false fs).head?, b.toNat % 128 = 0 := by
  cases fs with
  | nil => simp [wire]
  | cons f fs =>
    rw [wire_cons]
    unfold Frame.header
    intro b hb
    obtain rfl := Option.mem_some_iff.mp hb
    cases fs.isEmpty <;> decide

theorem drop_wire (f : Frame) (fs : List Frame) (first : Bool) :
    (wire first (f :: fs)).drop (headerSize f.payload.length - 4) =
      ((List.replicate 4 0 ++ f.payload).mapIdx
        fun i b => b ^^^ f.mask ⟨i % 4, Nat.mod_lt _ (by decide)⟩) ++ wire false fs := by
  rw [wire_cons, ← key_body]
  unfold Frame.header headerSize
  rw [show 6 + (lengthCode f.payload.length).2.length - 4 =
    ((lengthCode f.payload.length).2.length + 1) + 1 by omega]
  simp only [List.cons_append, List.drop_succ_cons, List.append_assoc, List.drop_left]

/-- From the place of the key on, some key makes any two bytes of the frame zero. -/
theorem exists_key (f : Frame) (fs : List Frame) (first : Bool) {p : Nat}
    (hlow : headerSize f.payload.length - 4 ≤ p) (hhigh : p < frameSize f.payload.length) :
    ∃ key t, (wire first ({ f with mask := key } :: fs)).drop p = 0 :: t ∧
      ∀ b ∈ t.head?, b.toNat % 128 = 0 := by
  obtain ⟨q, rfl⟩ : ∃ q, p = headerSize f.payload.length - 4 + q :=
    ⟨_, (Nat.add_sub_cancel' hlow).symm⟩
  have hsix := six_le_headerSize f.payload.length
  obtain ⟨x, hx⟩ : ∃ x : Bytes, x = List.replicate 4 0 ++ f.payload := ⟨_, rfl⟩
  have hq : q < x.length := by
    unfold frameSize at hhigh
    simp only [hx, List.length_append, List.length_replicate]
    omega
  -- neighbouring bytes fall on different places of the key
  let key : Fin 4 → UInt8 := fun k => if k.val = q % 4 then x.getD q 0 else x.getD (q + 1) 0
  obtain ⟨y, hy⟩ : ∃ y : Bytes, y =
      x.mapIdx fun i b => b ^^^ key ⟨i % 4, Nat.mod_lt _ (by decide)⟩ := ⟨_, rfl⟩
  have hlength : y.length = x.length := by rw [hy, List.length_mapIdx]
  have hdrop : (wire first ({ f with mask := key } :: fs)).drop
      (headerSize f.payload.length - 4 + q) = y[q] :: (y.drop (q + 1) ++ wire false fs) := by
    rw [← List.drop_drop]
    refine (congrArg (List.drop q) (drop_wire { f with mask := key } fs first)).trans ?_
    simp only
    rw [← hx, ← hy, List.drop_append_of_le_length (by omega), List.drop_eq_getElem_cons (by omega),
      List.cons_append]
  have hzero : y[q] = 0 := by
    simp [hy, key, hq]
  refine ⟨key, _, hdrop.trans (by rw [hzero]), fun b hb => ?_⟩
  by_cases hnext : q + 1 < y.length
  · rw [List.drop_eq_getElem_cons hnext] at hb
    obtain rfl := Option.mem_some_iff.mp hb
    have hmod : (q + 1) % 4 ≠ q % 4 := by omega
    have hnext' : q + 1 < x.length := by omega
    simp [hy, key, hmod, hnext']
  · rw [List.drop_eq_nil_of_le (by omega), List.nil_append] at hb
    exact head_wire fs b hb

theorem takePiece_key (pstate : Bool) (info : FrameInfo) (data : Bytes) :
    (takePiece pstate info data).1.pinfo.masked = info.masked ∧
      (takePiece pstate info data).1.pinfo.mask = info.mask := by
  unfold takePiece
  simp only
  split
  · split <;> exact ⟨rfl, rfl⟩
  · split
    · split <;> exact ⟨rfl, rfl⟩
    · exact ⟨rfl, rfl⟩

/-- The whole payload in one piece is one event with the payload. -/
theorem takePiece_body (f : Frame) (hsize : f.payload.length < sizeRange) {info : FrameInfo}
    (hopcode : info.opcode < 8) (hlen : info.len = f.payload.length) (hindex : info.index = 0)
    (hmasked : info.masked = true) (hmask : info.mask = f.mask) (pstate : Bool) :
    callbacks (takePiece pstate info f.body).2.1 = [trim f.payload] ∧
      (takePiece pstate info f.body).2.2 = [] := by
  have hleft : info.len - info.index = f.body.length := by
    rw [hlen, hindex, length_body, Nat.sub_zero]
  obtain ⟨-, hevents, hrest⟩ := takePiece_last pstate hopcode (by omega)
    (by rwa [hleft, length_body]) (Nat.le_of_eq hleft)
  have hunmask : unmask info f.body = f.payload := by
    rw [← unmask_body f info true true]
    unfold unmask
    simp [Frame.info, hmasked, hmask, hindex]
  rw [hleft, List.take_length] at hevents
  rw [hleft, List.drop_length] at hrest
  refine ⟨?_, hrest⟩
  rw [hevents, hunmask]
  rfl

/-- A frame that arrives whole is one command. -/
theorem commands_whole {c : Client} (hc : c.pstate = false) (f : Frame)
    (hsize : f.payload.length < sizeRange) :
    commands c [f.header true true ++ f.body] = some [trim f.payload] := by
  obtain ⟨fuel, hfuel⟩ : ∃ n, (f.header true true ++ f.body).length = n + 1 :=
    ⟨_, by simp [Frame.header]; rfl⟩
  obtain ⟨hcallbacks, hrest⟩ : callbacks (takePiece false (f.info c.pinfo true true) f.body).2.1 =
      [trim f.payload] ∧ (takePiece false (f.info c.pinfo true true) f.body).2.2 = [] :=
    takePiece_body f hsize (opcodeOf_lt true) rfl rfl rfl rfl false
  unfold commands
  rw [receive_cons, hfuel,
    resume_turn (onDataLoop_start hc (parseHeader_header c.pinfo f true true f.body) fuel), hrest,
    resume_nil]
  simpa [receive, callbacks] using hcallbacks

/-- So is one that is cut behind its header. -/
theorem commands_header_body {c : Client} (hc : c.pstate = false) (f : Frame)
    (hsize : f.payload.length < sizeRange) (hne : f.body ≠ []) :
    commands c [f.header true true, f.body] = some [trim f.payload] := by
  have hpos : 0 < f.payload.length := by
    rw [← length_body]
    exact List.length_pos_of_ne_nil hne
  obtain ⟨fuel, hfuel⟩ : ∃ n, (f.header true true).length = n + 1 :=
    ⟨_, by simp [Frame.header]; rfl⟩
  obtain ⟨fuel', hfuel'⟩ : ∃ n, f.body.length = n + 1 :=
    ⟨f.body.length - 1, by rw [length_body]; omega⟩
  -- the header alone opens the frame and raises nothing
  have hlt : (f.info c.pinfo true true).index + min (((f.info c.pinfo true true).len -
      (f.info c.pinfo true true).index) % sizeRange) ([] : Bytes).length <
        (f.info c.pinfo true true).len := by
    simpa [Frame.info] using hpos
  obtain ⟨hinside, -, hrest⟩ := takePiece_partial false [] (opcodeOf_lt true) hlt
  have hnone : (takePiece false (f.info c.pinfo true true) []).2.1 = [] := by
    unfold takePiece
    simp only [if_pos hlt]
    simp
  obtain ⟨hmasked, hmask⟩ := takePiece_key false (f.info c.pinfo true true) []
  obtain ⟨hpstate, hlen, hindex, hopcode, -⟩ := hinside
  have hzero : (takePiece false (f.info c.pinfo true true) []).1.pinfo.index = 0 := by
    simpa [Frame.info] using hindex
  obtain ⟨hcallbacks, hnil⟩ := takePiece_body f hsize hopcode hlen hzero hmasked hmask true
  have hparse := parseHeader_header c.pinfo f true true []
  rw [List.append_nil] at hparse
  unfold commands
  rw [receive_cons, hfuel, resume_turn (onDataLoop_start hc hparse fuel), hnone, hrest, List.drop_nil, resume_nil,
    receive_cons, hfuel', resume_turn (onDataLoop_inside hpstate hne fuel'), hnil, resume_nil]
  simpa [receive, callbacks] using hcallbacks

/-- Empty pieces are there only where the header ends its segment. -/
theorem pieces_cases {q last : Bytes} {segments done : List Bytes} (hne : ∀ s ∈ segments, s ≠ [])
    (hpieces : q :: segments = done ++ [last]) (hempty : ∀ s ∈ done, s = []) :
    (segments = [] ∧ q = last) ∨ (segments = [last] ∧ q = []) := by
  cases done with
  | nil =>
    obtain ⟨hq, hsegments⟩ := List.cons.inj hpieces
    exact .inl ⟨hsegments, hq⟩
  | cons d done =>
    obtain ⟨rfl, rfl⟩ := List.cons.inj hpieces
    cases done with
    | nil => exact .inr ⟨rfl, hempty q List.mem_cons_self⟩
    | cons s done => exact absurd (hempty s (by simp)) (hne s (by simp))

/-- A single frame that is one callback is not cut in its payload. -/
theorem whole_of_callbacks {c : Client} (hc : c.pstate = false) {f : Frame} {segment : Bytes}
    {segments : List Bytes} (hwire : segment ++ segments.flatten = wire true [f])
    (hne : ∀ s ∈ segments, s ≠ []) (hwhole : headerSize f.payload.length ≤ segment.length)
    {r : Client × List Event} (hr : receive c (segment :: segments) = some r)
    (hcount : (callbacks r.2).length = 1) :
    f.payload.length < sizeRange ∧
      (segment :: segments = [f.header true true ++ f.body] ∨
        segment :: segments = [f.header true true, f.body]) := by
  obtain ⟨q, rfl, hrest⟩ := header_prefix hwire hwhole
  have hbody : q ++ segments.flatten = f.body := by simpa [wire] using hrest
  have hlen : frameSize f.payload.length ≤
      (f.header true true ++ q).length + segments.flatten.length := by
    have hsum := congrArg List.length hbody
    rw [List.length_append, length_body] at hsum
    rw [List.length_append, length_header]
    unfold frameSize
    omega
  rw [receive_cons] at hr
  have hstart : StartsFrame c.pinfo (f.header true true ++ q) (frameSize f.payload.length)
      (f.info c.pinfo true true) (f.header true true) q :=
    ⟨rfl, parseHeader_header .., opcodeOf_lt true, rfl, by simp [Frame.header],
      by rw [length_header]; rfl⟩
  obtain ⟨done, last, left, rest, fuel, c', r', hpieces, hsum, hlast, -, -, hr', hmore⟩ :=
    resume_start hc hstart hne hlen (Nat.le_refl _) hr
  replace hsum : done.flatten.length + last.length = f.payload.length := hsum
  have hempty : ∀ s ∈ done, s = [] := by
    have hfilter : done.filter (· ≠ []) = [] := by
      rw [hcount] at hmore
      exact List.eq_nil_of_length_eq_zero (by omega)
    simpa using hfilter
  obtain ⟨hstream, hrestne⟩ := pieces_rest hne hpieces hsum
  rw [hbody, List.drop_eq_nil_of_le (Nat.le_of_eq (length_body f))] at hstream
  obtain ⟨rfl, hflat⟩ := List.append_eq_nil_iff.mp hstream
  obtain rfl : rest = [] := by
    rw [List.flatten_eq_nil_iff] at hflat
    exact List.eq_nil_iff_forall_not_mem.mpr fun s hs => hrestne s hs (hflat s hs)
  rw [List.append_nil] at hpieces
  have hsize : f.payload.length < sizeRange := by
    have hflat : done.flatten = [] := List.flatten_eq_nil_iff.mpr hempty
    rw [hflat, List.length_nil, Nat.zero_add] at hsum
    rwa [← hsum]
  rcases pieces_cases hne hpieces hempty with ⟨rfl, rfl⟩ | ⟨rfl, rfl⟩
  · rw [List.flatten_nil, List.append_nil] at hbody
    exact ⟨hsize, .inl (by rw [hbody]; rfl)⟩
  · rw [List.nil_append, List.flatten_singleton] at hbody
    exact ⟨hsize, .inr (by rw [hbody, List.append_nil]; rfl)⟩

/-- Some key shows that the header is cut: what is read instead of the frame is a
callback, and so is what follows it. -/
theorem callbacks_of_cut (f : Frame) (fs : List Frame) {size : Nat} (hpos : 0 < size)
    (hcut : size < headerSize f.payload.length) :
    ∃ key, ∀ (c : Client) (segment : Bytes) (segments : List Bytes) (r : Client × List Event),
      c.pstate = false → segment.length = size →
      segment ++ segments.flatten = wire true ({ f with mask := key } :: fs) →
      (∀ s ∈ segments, s ≠ []) → receive c (segment :: segments) = some r →
        2 ≤ (callbacks r.2).length := by
  by_cases htwo : 2 ≤ size
  · obtain ⟨hlow, hhigh⟩ := takenEnd_lt htwo hcut
    obtain ⟨key, t, hdrop, ht⟩ := exists_key f fs true hlow hhigh
    refine ⟨key, fun c segment segments r hc hsize hwire hne hr => ?_⟩
    have hsegment : segment ≠ [] := List.ne_nil_of_length_pos (by omega)
    rw [receive_cons] at hr
    obtain ⟨-, r', hr', hcount⟩ := resume_wire hc hsegment hwire hne (Nat.le_refl _) hr
    rw [hsize, hdrop] at hr'
    have hone := callbacks_of_empty (by decide) ht hr'
    omega
  · refine ⟨f.mask, fun c segment segments r hc hsize hwire hne hr => ?_⟩
    have hsegment : segment ≠ [] := List.ne_nil_of_length_pos (by omega)
    rw [receive_cons] at hr
    have := (resume_wire hc hsegment hwire hne (Nat.le_refl _) hr).1
    omega

/-- Several frames are several callbacks. -/
theorem callbacks_of_frames {c : Client} (hc : c.pstate = false) {f g : Frame} {fs : List Frame}
    {segment : Bytes} {segments : List Bytes}
    (hwhole : headerSize f.payload.length ≤ segment.length)
    (hwire : segment ++ segments.flatten = wire true (f :: g :: fs)) (hne : ∀ s ∈ segments, s ≠ [])
    {r : Client × List Event} (hr : receive c (segment :: segments) = some r) :
    2 ≤ (callbacks r.2).length := by
  have hsix := six_le_headerSize f.payload.length
  rw [receive_cons] at hr
  obtain ⟨-, r', hr', hcount⟩ :=
    resume_wire hc (List.ne_nil_of_length_pos (by omega)) hwire hne (Nat.le_refl _) hr
  have hstop : (wire true (f :: g :: fs)).drop (takenEnd f.payload.length segment.length) =
      wire false (g :: fs) := by
    unfold takenEnd frameSize
    rw [if_pos hwhole, wire_cons, ← List.append_assoc, List.drop_left']
    rw [List.length_append, length_header, length_body]
  rw [hstop] at hr'
  obtain ⟨c', data, rest, fuel, hc', hwire', hne', hfuel, hresume, hdata⟩ :=
    hr'.exists_data (wire_ne_nil false g fs)
  obtain ⟨-, r'', -, hcount'⟩ := resume_wire hc' hdata hwire' hne' hfuel hresume
  omega

theorem exists_frames {payloads : List Bytes} (hshort : ∀ p ∈ payloads, p.length < 2 ^ 64) :
    ∃ frames : List Frame, frames.map Frame.payload = payloads := by
  induction payloads with
  | nil => exact ⟨[], rfl⟩
  | cons p ps ih =>
    obtain ⟨frames, rfl⟩ := ih fun q hq => hshort q (List.mem_cons_of_mem p hq)
    exact ⟨⟨p, fun _ => 0, hshort p List.mem_cons_self⟩ :: frames, rfl⟩

/-- The segments have the lengths they should have. -/
theorem splitLengths_spec {size : Nat} {sizes : List Nat} {stream : Bytes}
    (hsum : (size :: sizes).sum = stream.length) (hpos : ∀ n ∈ size :: sizes, 0 < n) :
    ∃ segment segments, (size :: sizes).splitLengths stream = segment :: segments ∧
      segment.length = size ∧ segment ++ segments.flatten = stream ∧
      (∀ s ∈ segments, s ≠ []) ∧ segments.map List.length = sizes := by
  have hlengths := List.map_splitLengths_length stream (size :: sizes) (Nat.le_of_eq hsum)
  have hflat := List.flatten_splitLengths stream (size :: sizes) (Nat.le_of_eq hsum.symm)
  rw [List.splitLengths_cons] at hlengths hflat ⊢
  rw [List.map_cons] at hlengths
  obtain ⟨hsize, hsizes⟩ := List.cons.inj hlengths
  refine ⟨_, _, rfl, hsize, hflat, fun s hs => List.ne_nil_of_length_pos ?_, hsizes⟩
  refine hpos s.length (List.mem_cons_of_mem size ?_)
  rw [← hsizes]
  exact List.mem_map_of_mem hs

theorem length_wire_of_split (s : Split) {frames : List Frame}
    (hframes : frames.map Frame.payload = s.payloads) : s.sizes.sum = (wire true frames).length := by
  rw [s.sum_eq, length_wire, ← hframes, List.map_map]
  rfl

theorem Split.sizes_ne_nil (s : Split) : s.sizes ≠ [] := by
  intro hnil
  obtain ⟨frames, hframes⟩ := exists_frames s.short
  have hlength := length_wire_of_split s hframes
  cases frames with
  | nil => exact s.nonempty hframes.symm
  | cons f fs =>
    have hwire := List.length_pos_of_ne_nil (wire_ne_nil true f fs)
    rw [← hlength, hnil] at hwire
    exact Nat.lt_irrefl 0 hwire

/-- A split that goes wrong nowhere is whole. -/
theorem Split.OneCommand.whole {s : Split} (h : s.OneCommand) : s.Whole := by
  -- one command is one callback
  have hcount : ∀ frames : List Frame, frames.map Frame.payload = s.payloads → ∃ r,
      receive Client.connected (s.segments frames) = some r ∧ (callbacks r.2).length = 1 := by
    intro frames hframes
    obtain ⟨r, hr, htext⟩ := Option.map_eq_some_iff.mp (h Client.connected frames rfl hframes)
    exact ⟨r, hr, congrArg List.length htext⟩
  obtain ⟨frames, hframes⟩ := exists_frames s.short
  obtain ⟨size, sizes, hsizes⟩ := List.exists_cons_of_ne_nil s.sizes_ne_nil
  have hpos := s.pos
  have hlength : ∀ frames : List Frame, frames.map Frame.payload = s.payloads →
      (size :: sizes).sum = (wire true frames).length :=
    fun frames hframes => hsizes ▸ length_wire_of_split s hframes
  unfold Split.segments at hcount
  rw [hsizes] at hcount hpos
  match frames with
  | [] => exact absurd hframes.symm s.nonempty
  | f :: fs =>
    by_cases hwhole : headerSize f.payload.length ≤ size
    · obtain ⟨r, hr, hr1⟩ := hcount _ hframes
      obtain ⟨segment, segments, hsegments, rfl, hwire, hne, rfl⟩ :=
        splitLengths_spec (hlength _ hframes) hpos
      rw [hsegments] at hr
      match fs with
      | [] =>
        obtain ⟨hsize, hcases⟩ := whole_of_callbacks rfl hwire hne hwhole hr hr1
        refine ⟨f.payload, hframes.symm, hsize, ?_⟩
        rw [hsizes, ← List.map_cons]
        refine hcases.imp (fun h => ?_) fun h => ?_
        · rw [h, List.map_singleton, List.length_append, length_header, length_body]
          rfl
        · rw [h, List.map_cons, List.map_singleton, length_header, length_body]
      | g :: fs =>
        have := callbacks_of_frames rfl hwhole hwire hne hr
        omega
    · -- the header is cut: the key that shows it
      obtain ⟨key, hkey⟩ := callbacks_of_cut f fs (hpos size List.mem_cons_self)
        (Nat.lt_of_not_le hwhole)
      have hframes' : ({ f with mask := key } :: fs).map Frame.payload = s.payloads := hframes
      obtain ⟨r, hr, hr1⟩ := hcount _ hframes'
      obtain ⟨segment, segments, hsegments, hsize, hwire, hne, -⟩ :=
        splitLengths_spec (hlength _ hframes') hpos
      rw [hsegments] at hr
      have := hkey Client.connected segment segments r rfl hsize hwire hne hr
      omega

theorem Split.Whole.oneCommand {s : Split} (h : s.Whole) : s.OneCommand := by
  obtain ⟨m, hpayloads, hsize, hsizes⟩ := h
  intro c frames hc hframes
  rw [hpayloads] at hframes ⊢
  obtain ⟨f, rfl, rfl⟩ := List.map_eq_singleton_iff.mp hframes
  rw [List.flatten_singleton]
  unfold Split.segments
  have hwire : wire true [f] = f.header true true ++ f.body := rfl
  rcases hsizes with hsizes | hsizes
  · have hall : frameSize f.payload.length = (wire true [f]).length := by
      rw [length_wire]
      rfl
    rw [hsizes, List.splitLengths_cons, hall, List.take_length, hwire]
    exact commands_whole hc f hsize
  · rw [hsizes, List.splitLengths_cons, hwire, List.take_left' (length_header ..),
      List.drop_left' (length_header ..), List.splitLengths_cons, ← length_body, List.take_length]
    refine commands_header_body hc f hsize (List.ne_nil_of_length_pos ?_)
    rw [length_body]
    exact s.pos f.payload.length (by simp [hsizes])

/-- However a client splits a message into frames and the network the frames
into segments: the message is one command exactly when it is one frame whose
payload arrives in one piece. -/
theorem one_command_iff (s : Split) : s.OneCommand ↔ s.Whole :=
  ⟨fun h => h.whole, fun h => h.oneCommand⟩

/-- "reboot" in the frames "re" and "boot", each in a segment of its own. -/
def reboot : Split where
  payloads := [ascii "re", ascii "boot"]
  sizes := [8, 10]
  nonempty := by decide
  short := by decide
  pos := by decide
  sum_eq := by decide

theorem reboot_twice :
    commands Client.connected (reboot.segments [⟨ascii "re", fun _ => 7, by decide⟩,
      ⟨ascii "boot", fun _ => 9, by decide⟩]) = some [ascii "re", ascii "boot"] ∧
    ¬ reboot.OneCommand := by
  have htwo : commands Client.connected (reboot.segments [⟨ascii "re", fun _ => 7, by decide⟩,
      ⟨ascii "boot", fun _ => 9, by decide⟩]) = some [ascii "re", ascii "boot"] := by decide
  refine ⟨htwo, fun hone => ?_⟩
  have hsame := htwo.symm.trans (hone Client.connected _ rfl rfl)
  exact absurd hsame (by decide)

end WebSocket

end Handheld
