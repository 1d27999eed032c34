import ShoppingApp.Zmq.ZMsg

/-!
# Messages on the wire

`recv` and `send` of `src/zmq/zmsg.hpp`, on the bytes of frames. A frame of 17 bytes that begins
with 0 is how sockets name a peer that has no name; it is kept as `@` and the digits of the other 16
bytes, which has no NUL and so can be handled as a C string, and turned back when it is sent. A
failed assertion ends the program.
-/

namespace ShoppingApp

namespace ZMsg

/-- `ustring` -/
abbrev Part := List UInt8

/-- The bytes of a frame that is a string. -/
def bytes (frame : String) : Part := frame.toList.flatMap String.utf8EncodeChar

/-- A part as a C string. -/
def c_str (part : Part) : Part := part.takeWhile (· ≠ 0)

def hex_char (n : UInt8) : UInt8 := ("0123456789ABCDEF".toList.getD n.toNat '\x00').toUInt8

/-- The table of `decode_uuid`, where 255 stands for -1: sums are cut to a byte. -/
def hex_to_bin (c : UInt8) : UInt8 :=
  if 0x30 ≤ c ∧ c ≤ 0x39 then c - 0x30
  else if 0x41 ≤ c ∧ c ≤ 0x46 then c - 0x37
  else if 0x61 ≤ c ∧ c ≤ 0x66 then c - 0x57
  else 0xff

/-- The two digits of a byte. -/
def hexDigits (byte : UInt8) : Part := [hex_char (byte >>> 4), hex_char (byte &&& 15)]

def encode_uuid (data : Part) : Part := 0x40 :: data.tail.flatMap hexDigits

/-- The loop of `decode_uuid`. -/
def decodeDigits : Part → Part
  | a :: b :: rest =>
    ((hex_to_bin (a &&& 127) <<< 4) + hex_to_bin (b &&& 127)) :: decodeDigits rest
  | _ => []

def decode_uuid (uuidstr : Part) : Option Part :=
  if (c_str uuidstr).length = 33 ∧ uuidstr.head? = some 0x40
    then some (0 :: decodeDigits uuidstr.tail) else none

/-- The condition of `recv`. -/
def isUuid (message : Part) : Bool := decide (message.length = 17) && (message.head? = some 0)

/-- The condition of `send`. -/
def isAddress (data : Part) : Bool := decide (data.length = 33) && (data.head? = some 0x40)

def recvPart (message : Part) : Part :=
  if isUuid message then c_str (encode_uuid message) else message

def recv (frames : List Part) : List Part := frames.map recvPart

def sendPart (data : Part) : Option Part := if isAddress data then decode_uuid data else some data

def send (parts : List Part) : Option (List Part) := parts.mapM sendPart

end ZMsg

end ShoppingApp
