import Mathlib.Data.List.Basic
import Mathlib.Tactic

/-!
# Texts of URI components

The character classes of RFC 3986, and texts made up of the characters of a class
and of percent-encoded octets.
-/
namespace AbstractHttp.Library

namespace UriText

def digit (b : UInt8) : Bool := 0x30 ≤ b && b ≤ 0x39

def alpha (b : UInt8) : Bool := (0x41 ≤ b && b ≤ 0x5A) || (0x61 ≤ b && b ≤ 0x7A)

def hexdig (b : UInt8) : Bool :=
  digit b || (0x41 ≤ b && b ≤ 0x46) || (0x61 ≤ b && b ≤ 0x66)

/-- Letters, digits, and `-._~`. -/
def unreserved (b : UInt8) : Bool :=
  alpha b || digit b || b == 0x2D || b == 0x2E || b == 0x5F || b == 0x7E

/-- One of `!$&'()*+,;=`. -/
def subDelim (b : UInt8) : Bool :=
  b == 0x21 || b == 0x24 || (0x26 ≤ b && b ≤ 0x2C) || b == 0x3B || b == 0x3D

/-- What a registered name consists of, percent-encoded octets apart. -/
def regName (b : UInt8) : Bool := unreserved b || subDelim b

/-- The same for user information, in which colons may stand. -/
def userinfo (b : UInt8) : Bool := regName b || b == 0x3A

/-- The same for a segment of a path. -/
def pchar (b : UInt8) : Bool := userinfo b || b == 0x40

/-- The same for a path as a whole. -/
def path (b : UInt8) : Bool := pchar b || b == 0x2F

/-- The same for a query. -/
def query (b : UInt8) : Bool := path b || b == 0x3F

end UriText

/-- A text of characters of a class and of percent-encoded octets. -/
def isUriText (allowed : UInt8 → Bool) : List UInt8 → Bool
  | [] => true
  | 0x25 :: a :: b :: rest => UriText.hexdig a && UriText.hexdig b && isUriText allowed rest
  | b :: rest => allowed b && isUriText allowed rest

variable {allowed : UInt8 → Bool} {b : UInt8} {text : List UInt8}

theorem mem_of_isUriText (h : isUriText allowed text = true) (hb : b ∈ text) :
    (allowed b || b == 0x25 || UriText.hexdig b) = true := by
  induction text using isUriText.induct with
  | case1 => cases hb
  | case2 x y rest ih =>
    rw [isUriText, Bool.and_eq_true, Bool.and_eq_true] at h
    obtain ⟨⟨hx, hy⟩, hrest⟩ := h
    simp only [List.mem_cons] at hb
    rcases hb with rfl | rfl | rfl | hb
    · simp
    · simp [hx]
    · simp [hy]
    · exact ih hrest hb
  | case3 c rest hnot ih =>
    rw [isUriText, Bool.and_eq_true] at h
    · rcases List.mem_cons.mp hb with rfl | hb
      · simp [h.1]
      · exact ih h.2 hb
    · exact hnot

/-- A character outside the class that is no percent sign and no hexadecimal digit stands in no
text of the class. -/
theorem not_mem_of_isUriText (h : isUriText allowed text = true)
    (hb : (allowed b || b == 0x25 || UriText.hexdig b) = false) : b ∉ text := fun hmem =>
  Bool.false_ne_true (hb.symm.trans (mem_of_isUriText h hmem))

end AbstractHttp.Library
