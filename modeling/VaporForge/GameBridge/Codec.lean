import Mathlib.Data.List.Forall2
import VaporForge.Lib.KeyValues
import VaporForge.Lib.Utf8

/-!
# The game bridge's messages

Helpers in a game's process report to the client over a socket (`game-bridge/src/lib.rs`). A
message is a length, a type and a payload. Names are cut to `MAX_NAME_LEN` bytes when they are
written, wherever the cut falls, and read with `String::from_utf8_lossy`.

> What is read from the messages written is the messages, with longer names shortened to a
> part of them that fits, as long as no name is cut inside a character. Reading one message
> takes no more than its limit from the stream and allots no larger buffer
> (`messages_survive_iff`).

A name that is cut inside a character comes back with a U+FFFD in it (`name_cut_in_character`).
The decoder is a `LossyDecoder`.
-/

namespace VaporForge.GameBridge

open Lib

def tokenLen : Nat := 32

def maxMsgSize : Nat := 4096

def maxNameLen : Nat := 260

abbrev Token := { bytes : List UInt8 // bytes.length = tokenLen }

inductive Message where
  | hello (token : Token) (appId pid : BitVec 32)
  | denuvoDetected (appId : BitVec 32)
  | dllLoaded (appId : BitVec 32) (name : List Char)
  | dllInjectResult (appId : BitVec 32) (success : Bool)
  | peSection (appId : BitVec 32) (sectionName : List Char)
  | ack
  deriving DecidableEq

inductive DecodeError where
  | io
  | badLength (len : Nat)
  | unknownType (msgType : UInt8)
  | tooShort
  deriving DecidableEq, Repr

/-! ## Writing -/

def u32Bytes (n : BitVec 32) : List UInt8 := leBytes 4 n.toNat

/-- The name of a message: its length, and its bytes up to the limit. -/
def nameBytes (name : List Char) : List UInt8 :=
  let len := min (utf8Bytes name).length maxNameLen
  leBytes 2 len ++ (utf8Bytes name).take len

def Message.payload : Message → List UInt8
  | .hello token appId pid => 0x01 :: (token.1 ++ (u32Bytes appId ++ u32Bytes pid))
  | .denuvoDetected appId => 0x02 :: u32Bytes appId
  | .dllLoaded appId name => 0x03 :: (u32Bytes appId ++ nameBytes name)
  | .dllInjectResult appId success => 0x04 :: (u32Bytes appId ++ [if success then 1 else 0])
  | .peSection appId sectionName => 0x05 :: (u32Bytes appId ++ nameBytes sectionName)
  | .ack => [0x80]

def Message.encode (message : Message) : List UInt8 :=
  leBytes 4 message.payload.length ++ message.payload

/-! ## Reading -/

section Reading
variable (lossy : LossyDecoder)

def u32At (data : List UInt8) (pos : Nat) : BitVec 32 :=
  BitVec.ofNat 32 (ofLeBytes ((data.drop pos).take 4))

/-- The payload of the two messages with a name. -/
def decodeName (data : List UInt8) (message : BitVec 32 → List Char → Message) :
    Except DecodeError Message :=
  if data.length < 6 then .error .tooShort
  else
    let nameLen := ofLeBytes ((data.drop 4).take 2)
    if data.length < 6 + nameLen then .error .tooShort
    else .ok (message (u32At data 0) (lossy.decode ((data.drop 6).take nameLen)))

theorem length_take_token {data : List UInt8} (h : tokenLen + 8 ≤ data.length) :
    (data.take tokenLen).length = tokenLen := by
  rw [List.length_take]
  omega

def decodePayload : List UInt8 → Except DecodeError Message
  | [] => .error .tooShort
  | msgType :: data =>
    if msgType = 0x01 then
      if h : tokenLen + 8 ≤ data.length then
        .ok (.hello ⟨data.take tokenLen, length_take_token h⟩ (u32At data tokenLen)
          (u32At data (tokenLen + 4)))
      else .error .tooShort
    else if msgType = 0x02 then
      if data.length < 4 then .error .tooShort else .ok (.denuvoDetected (u32At data 0))
    else if msgType = 0x03 then decodeName lossy data .dllLoaded
    else if msgType = 0x04 then
      if data.length < 5 then .error .tooShort
      else .ok (.dllInjectResult (u32At data 0) (data[4]? != some 0))
    else if msgType = 0x05 then decodeName lossy data .peSection
    else if msgType = 0x80 then .ok .ack
    else .error (.unknownType msgType)

/-- A call of `read_message`: what it returns, what it leaves in the stream, and the size of
the buffer it allots. -/
structure ReadOutcome where
  result : Except DecodeError Message
  rest : List UInt8
  buffer : Nat

/-- `read_exact` past the end fails, and leaves nothing. -/
def readMessage (stream : List UInt8) : ReadOutcome :=
  if stream.length < 4 then ⟨.error .io, [], 0⟩
  else
    let len := ofLeBytes (stream.take 4)
    let body := stream.drop 4
    if len = 0 ∨ maxMsgSize < len then ⟨.error (.badLength len), body, 0⟩
    else if body.length < len then ⟨.error .io, [], len⟩
    else ⟨decodePayload lossy (body.take len), body.drop len, len⟩

variable {lossy} in
/-- A message that is read takes its length field at least. -/
theorem readMessage_rest_lt {stream : List UInt8} {message : Message}
    (h : (readMessage lossy stream).result = .ok message) :
    (readMessage lossy stream).rest.length < stream.length := by
  rw [readMessage] at h ⊢
  split at h
  · exact nomatch h
  · next hfour =>
    rw [if_neg hfour]
    dsimp only at h ⊢
    split at h
    · exact nomatch h
    · next hlen =>
      rw [if_neg hlen]
      split at h
      · exact nomatch h
      · next hbody =>
        rw [if_neg hbody, List.length_drop, List.length_drop]
        omega

/-- Messages are read until there is an error. -/
def readAll (stream : List UInt8) : List Message × DecodeError :=
  match h : (readMessage lossy stream).result with
  | .error error => ([], error)
  | .ok message =>
    let more := readAll (readMessage lossy stream).rest
    (message :: more.1, more.2)
termination_by stream.length
decreasing_by exact readMessage_rest_lt h

end Reading

/-! ## What survives -/

/-- A name that is not too long is kept; of a longer one a part that fits. -/
def Shortened (name got : List Char) : Prop :=
  if byteLen name ≤ maxNameLen then got = name else got <+: name ∧ byteLen got ≤ maxNameLen

inductive Survives : Message → Message → Prop
  | same {message : Message} : (∀ appId name, message ≠ .dllLoaded appId name) →
      (∀ appId name, message ≠ .peSection appId name) → Survives message message
  | dllLoaded {appId : BitVec 32} {name got : List Char} : Shortened name got →
      Survives (.dllLoaded appId name) (.dllLoaded appId got)
  | peSection {appId : BitVec 32} {name got : List Char} : Shortened name got →
      Survives (.peSection appId name) (.peSection appId got)

/-- The names of a message. -/
def Message.names : Message → List (List Char)
  | .dllLoaded _ name => [name]
  | .peSection _ name => [name]
  | _ => []

/-- The name is short enough, or a character ends where it is cut. -/
def CutsClean (name : List Char) : Prop :=
  byteLen name ≤ maxNameLen ∨ splitAtByte name maxNameLen ≠ none

/-! ## One message -/

section OneMessage
variable (lossy : LossyDecoder)

/-- What a name is when it is read. -/
def readName (name : List Char) : List Char := lossy.decode ((utf8Bytes name).take maxNameLen)

def Message.received : Message → Message
  | .dllLoaded appId name => .dllLoaded appId (readName lossy name)
  | .peSection appId name => .peSection appId (readName lossy name)
  | message => message

theorem u32At_append (front : List UInt8) (n : BitVec 32) (rest : List UInt8) :
    u32At (front ++ (u32Bytes n ++ rest)) front.length = n := by
  have hfour : (u32Bytes n).length = 4 := length_leBytes 4 _
  rw [u32At, List.drop_left, List.take_left' hfour]
  exact ofNat_ofLeBytes 4 n rfl

theorem decodeName_nameBytes (appId : BitVec 32) (name : List Char)
    (message : BitVec 32 → List Char → Message) :
    decodeName lossy (u32Bytes appId ++ nameBytes name) message =
      .ok (message appId (readName lossy name)) := by
  have hfour : (u32Bytes appId).length = 4 := length_leBytes 4 _
  generalize hlen : min (utf8Bytes name).length maxNameLen = len
  have hle : len ≤ maxNameLen := hlen ▸ Nat.min_le_right _ _
  have hmod : len % 256 ^ 2 = len := Nat.mod_eq_of_lt (Nat.lt_of_le_of_lt hle (by decide))
  have htake : (utf8Bytes name).take len = (utf8Bytes name).take maxNameLen := by
    rw [← hlen, Nat.min_comm, ← List.take_take, List.take_length]
  have hbytes : ((utf8Bytes name).take len).length = len := by
    rw [List.length_take]
    omega
  have hlength : (leBytes 2 len).length = 2 := length_leBytes 2 _
  have happId := u32At_append [] appId (leBytes 2 len ++ (utf8Bytes name).take len)
  have hnameLen : ofLeBytes (((u32Bytes appId ++ (leBytes 2 len ++
      (utf8Bytes name).take len)).drop 4).take 2) = len := by
    rw [List.drop_left' hfour, List.take_left' hlength, ofLeBytes_leBytes, hmod]
  have hname : (u32Bytes appId ++ (leBytes 2 len ++ (utf8Bytes name).take len)).drop 6 =
      (utf8Bytes name).take len := by
    rw [← List.append_assoc]
    apply List.drop_left'
    rw [List.length_append, hfour, hlength]
  have htotal : (u32Bytes appId ++ (leBytes 2 len ++ (utf8Bytes name).take len)).length =
      6 + len := by
    rw [List.length_append, List.length_append, hfour, hlength, hbytes]
    omega
  rw [decodeName, nameBytes, hlen]
  dsimp only
  rw [if_neg (by omega), hnameLen, if_neg (by omega), hname, List.take_of_length_le (Nat.le_of_eq hbytes),
    htake]
  exact congrArg (fun id => Except.ok (message id _)) happId

theorem decodePayload_payload (message : Message) :
    decodePayload lossy message.payload = .ok (message.received lossy) := by
  cases message with
  | hello token appId pid =>
    have hlen : tokenLen + 8 ≤ (token.1 ++ (u32Bytes appId ++ u32Bytes pid)).length := by
      rw [List.length_append, List.length_append, token.2, u32Bytes, u32Bytes, length_leBytes,
        length_leBytes]
    have htoken : (token.1 ++ (u32Bytes appId ++ u32Bytes pid)).take tokenLen = token.1 :=
      List.take_left' token.2
    have happId := u32At_append token.1 appId (u32Bytes pid)
    have hpid := u32At_append (token.1 ++ u32Bytes appId) pid []
    rw [List.append_nil, List.append_assoc, List.length_append, u32Bytes, length_leBytes] at hpid
    rw [token.2] at happId hpid
    rw [Message.payload, decodePayload, if_pos rfl, dif_pos hlen]
    simp only [htoken, happId]
    exact congrArg (fun pid => Except.ok (Message.hello token appId pid)) hpid
  | denuvoDetected appId =>
    have happId := u32At_append [] appId []
    rw [List.append_nil, List.nil_append] at happId
    have hlen : ¬(u32Bytes appId).length < 4 := by
      rw [u32Bytes, length_leBytes]
      omega
    show (if (u32Bytes appId).length < 4 then Except.error DecodeError.tooShort
      else Except.ok (Message.denuvoDetected (u32At (u32Bytes appId) 0))) = _
    rw [if_neg hlen]
    exact congrArg (fun id => Except.ok (Message.denuvoDetected id)) happId
  | dllLoaded appId name => exact decodeName_nameBytes lossy appId name .dllLoaded
  | dllInjectResult appId success =>
    have happId := u32At_append [] appId [if success then 1 else 0]
    have hfour : (u32Bytes appId).length = 4 := length_leBytes 4 _
    have hlen : ¬(u32Bytes appId ++ [if success then (1 : UInt8) else 0]).length < 5 := by
      rw [List.length_append, hfour]
      exact Nat.lt_irrefl 5
    have hflag : (u32Bytes appId ++ [if success then (1 : UInt8) else 0])[4]? =
        some (if success then 1 else 0) := by
      rw [← hfour]
      exact List.getElem?_concat_length
    show (if (u32Bytes appId ++ [if success then (1 : UInt8) else 0]).length < 5 then
      Except.error DecodeError.tooShort else Except.ok (Message.dllInjectResult
        (u32At (u32Bytes appId ++ [if success then 1 else 0]) 0)
        ((u32Bytes appId ++ [if success then (1 : UInt8) else 0])[4]? != some 0))) = _
    rw [if_neg hlen, hflag]
    have hsuccess : (some (if success then (1 : UInt8) else 0) != some 0) = success := by
      cases success <;> rfl
    rw [hsuccess]
    exact congrArg (fun id => Except.ok (Message.dllInjectResult id success)) happId
  | peSection appId name => exact decodeName_nameBytes lossy appId name .peSection
  | ack => rfl

theorem length_payload (message : Message) :
    0 < message.payload.length ∧ message.payload.length ≤ maxMsgSize := by
  have hname : ∀ name, (nameBytes name).length ≤ 2 + maxNameLen := by
    intro name
    rw [nameBytes, List.length_append, length_leBytes, List.length_take]
    omega
  cases message with
  | hello token appId pid =>
    simp only [Message.payload, List.length_cons, List.length_append, token.2, u32Bytes,
      length_leBytes, tokenLen, maxMsgSize]
    omega
  | denuvoDetected appId =>
    simp only [Message.payload, List.length_cons, u32Bytes, length_leBytes, maxMsgSize]
    omega
  | dllLoaded appId name | peSection appId name =>
    have := hname name
    simp only [Message.payload, List.length_cons, List.length_append, u32Bytes, length_leBytes,
      maxMsgSize, maxNameLen] at this ⊢
    omega
  | dllInjectResult appId success =>
    simp only [Message.payload, List.length_cons, List.length_append, u32Bytes, length_leBytes,
      List.length_nil, maxMsgSize]
    omega
  | ack => exact ⟨by decide, by decide⟩

theorem readMessage_encode (message : Message) (rest : List UInt8) :
    readMessage lossy (message.encode ++ rest) =
      ⟨.ok (message.received lossy), rest, message.payload.length⟩ := by
  obtain ⟨hpos, hle⟩ := length_payload message
  have hfour : (leBytes 4 message.payload.length).length = 4 := length_leBytes 4 _
  have hmod : message.payload.length % 256 ^ 4 = message.payload.length :=
    Nat.mod_eq_of_lt (Nat.lt_of_le_of_lt hle (by decide))
  rw [readMessage, Message.encode, List.append_assoc, if_neg (by rw [List.length_append]; omega)]
  dsimp only
  rw [List.take_left' hfour, List.drop_left' hfour, ofLeBytes_leBytes, hmod,
    if_neg (by omega), if_neg (by rw [List.length_append]; omega), List.take_left, List.drop_left,
    decodePayload_payload]

end OneMessage

/-! ## Sequences -/

section Sequences
variable (lossy : LossyDecoder)

theorem readAll_encode (messages : List Message) :
    readAll lossy (messages.flatMap Message.encode) =
      (messages.map (Message.received lossy), .io) := by
  induction messages with
  | nil =>
    rw [readAll]
    rfl
  | cons message messages ih =>
    have hread := readMessage_encode lossy message (messages.flatMap Message.encode)
    rw [List.flatMap_cons, readAll]
    split
    · next error herror =>
      rw [hread] at herror
      exact nomatch herror
    · next got hgot =>
      rw [hread] at hgot
      obtain rfl := Except.ok.inj hgot
      rw [hread]
      dsimp only
      rw [ih, List.map_cons]

/-- The name that is read is a part that fits, unless a character is cut. -/
theorem shortened_readName_iff (name : List Char) :
    Shortened name (readName lossy name) ↔ CutsClean name := by
  rw [Shortened, CutsClean]
  by_cases hshort : byteLen name ≤ maxNameLen
  · rw [if_pos hshort, readName, List.take_of_length_le (by rw [length_utf8Bytes]; exact hshort),
      lossy.valid]
    exact ⟨fun _ => .inl hshort, fun _ => rfl⟩
  · rw [if_neg hshort]
    obtain ⟨a, b, hsplit, rfl, hlen⟩ | ⟨hsplit, a, c, b, k, rfl, hpos, hlt, hlen⟩ :=
      splitAtByte_cases name maxNameLen (by omega)
    · have hread : readName lossy (a ++ b) = a := by
        rw [readName, utf8Bytes_append,
          List.take_left' (by rw [length_utf8Bytes]; exact hlen), lossy.valid]
      rw [hread, hsplit]
      exact ⟨fun _ => .inr (fun h => nomatch h), fun _ => ⟨List.prefix_append a b,
        Nat.le_of_eq hlen⟩⟩
    · have hread : readName lossy (a ++ c :: b) = a ++ ['\uFFFD'] := by
        rw [readName, utf8Bytes_append, hlen, ← length_utf8Bytes, List.take_length_add_append,
          utf8Bytes_cons, List.take_append_of_le_length, lossy.cut a c k hpos hlt]
        rw [String.length_utf8EncodeChar]
        exact Nat.le_of_lt hlt
      rw [hread, hsplit]
      -- the only prefix it can be ends in the character that was cut, and is too long
      refine ⟨fun h => ?_, fun h => ?_⟩
      · obtain ⟨⟨rest, hrest⟩, hfits⟩ := h
        rw [List.append_assoc] at hrest
        obtain rfl : '\uFFFD' = c := (List.cons.inj (List.append_cancel_left hrest)).1
        rw [byteLen_append, byteLen_cons, byteLen_nil] at hfits
        omega
      · exact absurd rfl (h.resolve_left hshort)

theorem survives_received_iff (message : Message) :
    Survives message (message.received lossy) ↔ ∀ name ∈ message.names, CutsClean name := by
  cases message with
  | dllLoaded appId name =>
    simp only [Message.names, List.mem_singleton, forall_eq, ← shortened_readName_iff lossy,
      Message.received]
    generalize readName lossy name = got
    refine ⟨fun h => ?_, .dllLoaded⟩
    cases h with
    | same h _ => exact absurd rfl (h _ _)
    | dllLoaded h => exact h
  | peSection appId name =>
    simp only [Message.names, List.mem_singleton, forall_eq, ← shortened_readName_iff lossy,
      Message.received]
    generalize readName lossy name = got
    refine ⟨fun h => ?_, .peSection⟩
    cases h with
    | same _ h => exact absurd rfl (h _ _)
    | peSection h => exact h
  | hello | denuvoDetected | dllInjectResult | ack =>
    exact ⟨fun _ _ h => absurd h List.not_mem_nil,
      fun _ => .same (fun _ _ h => nomatch h) (fun _ _ h => nomatch h)⟩

/-- One call takes a bounded part of the stream and a bounded buffer. -/
theorem readMessage_bounded (stream : List UInt8) :
    (readMessage lossy stream).buffer ≤ maxMsgSize ∧
      stream.length ≤ (readMessage lossy stream).rest.length + 4 + maxMsgSize := by
  have hbody : (stream.drop 4).length = stream.length - 4 := List.length_drop
  rw [readMessage]
  split
  · dsimp only [List.length_nil]
    omega
  · dsimp only
    split
    · dsimp only
      omega
    · split
      · dsimp only [List.length_nil]
        omega
      · dsimp only
        rw [List.length_drop, hbody]
        omega

/-- Messages survive the wire unless a name is cut inside a character, and no stream makes a
read exceed its limits. -/
theorem messages_survive_iff (messages : List Message) :
    ((∃ got, readAll lossy (messages.flatMap Message.encode) = (got, .io) ∧
        List.Forall₂ Survives messages got) ↔
      ∀ message ∈ messages, ∀ name ∈ message.names, CutsClean name) ∧
    ∀ stream, (readMessage lossy stream).buffer ≤ maxMsgSize ∧
      stream.length ≤ (readMessage lossy stream).rest.length + 4 + maxMsgSize := by
  refine ⟨?_, readMessage_bounded lossy⟩
  rw [readAll_encode]
  constructor
  · intro h
    obtain ⟨got, heq, hgot⟩ := h
    obtain rfl := (Prod.mk.inj heq).1
    rw [List.forall₂_map_right_iff, List.forall₂_same] at hgot
    exact fun message hmem => (survives_received_iff lossy message).mp (hgot message hmem)
  · intro h
    refine ⟨_, rfl, ?_⟩
    rw [List.forall₂_map_right_iff, List.forall₂_same]
    exact fun message hmem => (survives_received_iff lossy message).mpr (h message hmem)

end Sequences

/-- 259 bytes and a character of two: the cut falls into it. -/
theorem name_cut_in_character : ¬∃ got,
    readAll LossyDecoder.ofTexts
        ([.dllLoaded 480 (List.replicate 259 'a' ++ ['é'])].flatMap Message.encode) = (got, .io) ∧
      List.Forall₂ Survives [.dllLoaded 480 (List.replicate 259 'a' ++ ['é'])] got := by
  intro h
  obtain ⟨got, heq, hgot⟩ := h
  rw [readAll_encode] at heq
  obtain rfl := (Prod.mk.inj heq).1
  rw [List.forall₂_map_right_iff, List.forall₂_same] at hgot
  have hclean := (survives_received_iff _ _).mp (hgot _ List.mem_cons_self) _ List.mem_cons_self
  have hcut : ¬CutsClean (List.replicate 259 'a' ++ ['é']) := by
    unfold CutsClean
    decide +kernel
  exact hcut hclean

end VaporForge.GameBridge
