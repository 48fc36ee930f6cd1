import Mosec.BigEndian

namespace Mosec

abbrev Bytes := List UInt8

inductive TaskCode where
  | Normal
  | BadRequestError
  | ValidationError
  | TimeoutError
  | InternalError
  | StreamEvent
  deriving DecidableEq, Repr

structure Item where
  id : UInt32
  state : UInt16
  data : Bytes
  deriving DecidableEq, Repr

namespace Wire

def flagU8Size : ℕ := 2
def numU8Size : ℕ := 2
def stateU8Size : ℕ := 2
def taskIdU8Size : ℕ := 4
def lengthU8Size : ℕ := 4

def bitStatusOk : UInt16 := 1
def bitStatusBadReq : UInt16 := 2
def bitStatusValidationErr : UInt16 := 4
def bitStatusTimeoutErr : UInt16 := 16
def bitStatusStreamEvent : UInt16 := 32768

def putU16 (n : UInt16) : Bytes := BigEndian.encode 2 n.toNat
def putU32 (n : UInt32) : Bytes := BigEndian.encode 4 n.toNat
def u16FromBeBytes (bytes : Bytes) : UInt16 := UInt16.ofNat (BigEndian.decode bytes)
def u32FromBeBytes (bytes : Bytes) : UInt32 := UInt32.ofNat (BigEndian.decode bytes)

def itemBytes (item : Item) : Bytes :=
  putU32 item.id ++ putU16 item.state ++ putU32 (UInt32.ofNat item.data.length) ++ item.data

/-- The buffer of `send_message`. Both length casts truncate, as `as u16` and `as u32` do. -/
def sendMessage (items : List Item) : Bytes :=
  putU16 0 ++ putU16 (UInt16.ofNat items.length) ++ items.flatMap itemBytes

def codeOfFlag (flag : UInt16) : TaskCode :=
  if flag &&& bitStatusOk > 0 then .Normal
  else if flag &&& bitStatusBadReq > 0 then .BadRequestError
  else if flag &&& bitStatusValidationErr > 0 then .ValidationError
  else if flag &&& bitStatusTimeoutErr > 0 then .TimeoutError
  else if flag &&& bitStatusStreamEvent > 0 then .StreamEvent
  else .InternalError

def readExact (n : ℕ) (stream : Bytes) : Option (Bytes × Bytes) :=
  if n ≤ stream.length then some (stream.take n, stream.drop n) else none

def readItem (stream : Bytes) : Option (Item × Bytes) := do
  let (idBuf, stream) ← readExact taskIdU8Size stream
  let (stateBuf, stream) ← readExact stateU8Size stream
  let (lengthBuf, stream) ← readExact lengthU8Size stream
  let (dataBuf, stream) ← readExact (u32FromBeBytes lengthBuf).toNat stream
  return (⟨u32FromBeBytes idBuf, u16FromBeBytes stateBuf, dataBuf⟩, stream)

/-- What `read_message` leaves behind: the buffers it was lent keep the items read before an
error, and `rest` is `none` when the error ended the read. -/
structure Received where
  code : TaskCode
  items : List Item
  rest : Option Bytes
  deriving DecidableEq, Repr

def readItems (code : TaskCode) : ℕ → Bytes → Received
  | 0, stream => ⟨code, [], some stream⟩
  | num + 1, stream =>
    match readItem stream with
    | none => ⟨code, [], none⟩
    | some (item, stream) =>
      let received := readItems code num stream
      { received with items := item :: received.items }

def readMessage (code : TaskCode) (stream : Bytes) : Received :=
  match readExact flagU8Size stream with
  | none => ⟨code, [], none⟩
  | some (flagBuf, stream) =>
    match readExact numU8Size stream with
    | none => ⟨code, [], none⟩
    | some (numBuf, stream) =>
      readItems (codeOfFlag (u16FromBeBytes flagBuf)) (u16FromBeBytes numBuf).toNat stream

theorem readExact_append {bytes : Bytes} {n : ℕ} (rest : Bytes) (h : bytes.length = n) :
    readExact n (bytes ++ rest) = some (bytes, rest) := by
  subst h
  simp [readExact]

@[simp] theorem putU16_length (n : UInt16) : (putU16 n).length = 2 := BigEndian.encode_length 2 _
@[simp] theorem putU32_length (n : UInt32) : (putU32 n).length = 4 := BigEndian.encode_length 4 _

@[simp] theorem u16_putU16 (n : UInt16) : u16FromBeBytes (putU16 n) = n := by
  have hn : n.toNat < 256 ^ 2 := n.toNat_lt
  rw [u16FromBeBytes, putU16, BigEndian.decode_encode_of_lt hn, UInt16.ofNat_toNat]

@[simp] theorem u32_putU32 (n : UInt32) : u32FromBeBytes (putU32 n) = n := by
  have hn : n.toNat < 256 ^ 4 := n.toNat_lt
  rw [u32FromBeBytes, putU32, BigEndian.decode_encode_of_lt hn, UInt32.ofNat_toNat]

theorem readItem_append (item : Item) (rest : Bytes) (h : item.data.length < 2 ^ 32) :
    readItem (itemBytes item ++ rest) = some (item, rest) := by
  have hlen : (UInt32.ofNat item.data.length).toNat = item.data.length :=
    UInt32.toNat_ofNat_of_lt' h
  simp only [readItem, itemBytes, List.append_assoc]
  rw [readExact_append _ (by simp [taskIdU8Size])]
  simp only [Option.bind_eq_bind, Option.bind_some]
  rw [readExact_append _ (by simp [stateU8Size])]
  simp only [Option.bind_some]
  rw [readExact_append _ (by simp [lengthU8Size])]
  simp only [Option.bind_some]
  rw [readExact_append _ (by simp [hlen])]
  simp

theorem readItems_append (code : TaskCode) (items : List Item) (rest : Bytes)
    (h : ∀ item ∈ items, item.data.length < 2 ^ 32) :
    readItems code items.length (items.flatMap itemBytes ++ rest) = ⟨code, items, some rest⟩ := by
  induction items with
  | nil => rfl
  | cons item items ih =>
    have hitem := readItem_append item (items.flatMap itemBytes ++ rest) (h item (by simp))
    have htail := ih (fun i hi => h i (List.mem_cons_of_mem _ hi))
    simp only [List.length_cons, List.flatMap_cons, List.append_assoc, readItems, hitem, htail]

theorem readMessage_frame (code : TaskCode) (flag : UInt16) (items : List Item) (rest : Bytes)
    (hnum : items.length < 2 ^ 16) (h : ∀ item ∈ items, item.data.length < 2 ^ 32) :
    readMessage code (putU16 flag ++ putU16 (UInt16.ofNat items.length) ++
      items.flatMap itemBytes ++ rest) = ⟨codeOfFlag flag, items, some rest⟩ := by
  have hlen : (UInt16.ofNat items.length).toNat = items.length := UInt16.toNat_ofNat_of_lt' hnum
  simp only [readMessage, List.append_assoc]
  rw [readExact_append _ (by simp [flagU8Size])]
  simp only
  rw [readExact_append _ (by simp [numU8Size])]
  simp only [u16_putU16, hlen]
  exact readItems_append _ items rest h

end Wire

end Mosec
