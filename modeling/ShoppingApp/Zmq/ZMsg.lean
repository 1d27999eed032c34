import Mathlib.Data.List.TakeWhile
import Mathlib.Data.String.Basic

/-!
# Messages

`zmsg` of `src/zmq/zmsg.hpp`: a message is the list of its frames. A part that is pushed is a C
string and ends at its first NUL.
-/

namespace ShoppingApp

/-- A string up to its first NUL character. -/
def cStr (s : String) : String := String.ofList (s.toList.takeWhile (· ≠ '\x00'))

abbrev ZMsg := List String

namespace ZMsg

def push_front (msg : ZMsg) (part : String) : ZMsg := cStr part :: msg

def push_back (msg : ZMsg) (part : String) : ZMsg := msg ++ [cStr part]

def wrap (msg : ZMsg) (address delim : String) : ZMsg := (msg.push_front delim).push_front address

/-- The address on top of a message, and the message without it and an empty frame under it; an
empty message ends the program. -/
def unwrap : ZMsg → Option (String × ZMsg)
  | [] => none
  | [address] => some (cStr address, [])
  | address :: part :: msg => some (cStr address, if cStr part = "" then msg else part :: msg)

theorem cStr_cStr (s : String) : cStr (cStr s) = cStr s := by
  unfold cStr
  rw [String.toList_ofList, List.takeWhile_idem]

theorem cStr_empty : cStr "" = "" := rfl

theorem unwrap_wrap (msg : ZMsg) (address : String) :
    (msg.wrap address "").unwrap = some (cStr address, msg) := by
  unfold wrap push_front unwrap
  dsimp only
  rw [cStr_cStr, cStr_empty, cStr_empty, if_pos rfl]

end ZMsg

end ShoppingApp
