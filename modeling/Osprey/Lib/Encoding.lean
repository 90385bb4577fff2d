/-
Texts with a separator, numbers as decimal text, and bytes as base64 text.

* `parseInt_intBytes`: reading back the decimal text of an integer gives the
  integer.
* `decode_encode`: decoding the base64 text of bytes gives the bytes.
-/
import Mathlib.Data.Nat.Digits.Defs

namespace Lib.Encoding

theorem append_cons_inj {α : Type*} {a} : ∀
    {x y z w : List α}, a ∉ x → a ∉ y → x ++ a :: z = y ++ a :: w → x = y ∧ z = w
  | [], [], _, _, _, _, h => ⟨rfl, (List.cons.inj h).2⟩
  | [], b :: y, _, _, _, hy, h => absurd (List.cons.inj h).1 (List.ne_of_not_mem_cons hy)
  | b :: x, [], _, _, hx, _, h => absurd (List.cons.inj h).1.symm (List.ne_of_not_mem_cons hx)
  | b :: x, c :: y, z, w, hx, hy, h => by
    obtain ⟨rfl, htail⟩ := List.cons.inj h
    obtain ⟨rfl, rfl⟩ := append_cons_inj (fun h => hx (.tail b h)) (fun h => hy (.tail b h)) htail
    exact ⟨rfl, rfl⟩

abbrev Byte := Fin 256

/-! ## Decimal text -/

def digitByte (d : Nat) : Byte := Fin.ofNat 256 (48 + d)

/-- The decimal text of a natural number. -/
def natBytes (n : Nat) : List Byte :=
  if n = 0 then [digitByte 0] else ((Nat.digits 10 n).map digitByte).reverse

/-- The decimal text of an integer, with a minus sign in front of a negative one. -/
def intBytes : Int → List Byte
  | .ofNat n => natBytes n
  | .negSucc n => 45 :: natBytes (n + 1)

def digitValue (b : Byte) : Option Nat := if 48 ≤ b.val ∧ b.val ≤ 57 then some (b.val - 48) else none

def digitValues : List Byte → Option (List Nat)
  | [] => some []
  | b :: bs =>
    match digitValue b, digitValues bs with
    | some d, some ds => some (d :: ds)
    | _, _ => none

def parseNat (bs : List Byte) : Option Nat :=
  if bs = [] then none else (digitValues bs).map fun ds => Nat.ofDigits 10 ds.reverse

def parseInt : List Byte → Option Int
  | [] => none
  | b :: bs => if b = 45 then (parseNat bs).map fun n => -(n : Int) else (parseNat (b :: bs)).map fun n => (n : Int)

theorem digitByte_val {d} (h : d < 10) : (digitByte d).val = 48 + d := by
  simp only [digitByte, Fin.val_ofNat]
  omega

theorem digitValue_digitByte {d} (h : d < 10) : digitValue (digitByte d) = some d := by
  simp only [digitValue, digitByte_val h]
  rw [if_pos (by omega)]
  simp

theorem digitValues_map : ∀ ds : List Nat, (∀ d ∈ ds, d < 10) → digitValues (ds.map digitByte) = some ds
  | [], _ => rfl
  | d :: ds, h => by
    simp only [List.map_cons, digitValues, digitValue_digitByte (h d (by simp)),
      digitValues_map ds fun d' hd' => h d' (by simp [hd'])]

theorem digits_lt (n : Nat) : ∀ d ∈ (Nat.digits 10 n).reverse, d < 10 := by
  intro d hd
  exact Nat.digits_lt_base (by decide) (List.mem_reverse.1 hd)

theorem natBytes_eq (n : Nat) : natBytes n = (if n = 0 then [0] else (Nat.digits 10 n).reverse).map digitByte := by
  unfold natBytes
  split <;> simp [List.map_reverse]

theorem parseNat_natBytes (n : Nat) : parseNat (natBytes n) = some n := by
  rw [natBytes_eq]
  by_cases h : n = 0
  · subst h; rfl
  · rw [if_neg h, parseNat, digitValues_map _ (digits_lt n), if_neg]
    · simp [Nat.ofDigits_digits]
    · simpa using Nat.digits_ne_nil_iff_ne_zero.2 h

/-- The text of a natural number starts with a digit, so it is not read as negative. -/
theorem natBytes_head (n : Nat) : ∃ b bs, natBytes n = b :: bs ∧ b ≠ 45 := by
  have head : ∀ ds : List Nat, ds ≠ [] → (∀ d ∈ ds, d < 10) → ∃ b bs, ds.map digitByte = b :: bs ∧ b ≠ 45
    | [], h, _ => absurd rfl h
    | d :: ds, _, h => by
      refine ⟨_, _, rfl, fun he => ?_⟩
      have := congrArg Fin.val he
      rw [digitByte_val (h d (by simp))] at this
      change 48 + d = 45 at this
      omega
  rw [natBytes_eq]
  split
  · exact head [0] (by simp) (by simp)
  · next h => exact head _ (by simpa using Nat.digits_ne_nil_iff_ne_zero.2 h) (digits_lt n)

theorem parseInt_intBytes : ∀ n : Int, parseInt (intBytes n) = some n
  | .ofNat n => by
    obtain ⟨b, bs, hb, hne⟩ := natBytes_head n
    simp only [intBytes, hb, parseInt, if_neg hne]
    rw [← hb, parseNat_natBytes]
    rfl
  | .negSucc n => by
    simp only [intBytes, parseInt, if_true, parseNat_natBytes]
    rfl

/-! ## Base64 -/

def alphabet : List Char := "ABCDEFGHIJKLMNOPQRSTUVWXYZabcdefghijklmnopqrstuvwxyz0123456789+/".toList

/-- The character of a group of six bits. -/
def sextetChar (n : Nat) : Char := alphabet.getD n 'A'

def charSextet (c : Char) : Option Nat := alphabet.idxOf? c

def encode : List Byte → List Char
  | [] => []
  | [a] => [sextetChar (a.val / 4), sextetChar (a.val % 4 * 16), '=', '=']
  | [a, b] =>
    [sextetChar (a.val / 4), sextetChar (a.val % 4 * 16 + b.val / 16), sextetChar (b.val % 16 * 4), '=']
  | a :: b :: c :: bs =>
    sextetChar (a.val / 4) :: sextetChar (a.val % 4 * 16 + b.val / 16) ::
      sextetChar (b.val % 16 * 4 + c.val / 64) :: sextetChar (c.val % 64) :: encode bs

/-- The bytes of four groups of six bits. -/
def byte₀ (s₀ s₁ : Nat) : Byte := Fin.ofNat 256 (s₀ * 4 + s₁ / 16)
def byte₁ (s₁ s₂ : Nat) : Byte := Fin.ofNat 256 (s₁ % 16 * 16 + s₂ / 4)
def byte₂ (s₂ s₃ : Nat) : Byte := Fin.ofNat 256 (s₂ % 4 * 64 + s₃)

/-- Decoding; `none` for text that no bytes encode to in shape. -/
def decode : List Char → Option (List Byte)
  | [] => some []
  | c₀ :: c₁ :: c₂ :: c₃ :: cs =>
    match charSextet c₀, charSextet c₁ with
    | some s₀, some s₁ =>
      match charSextet c₂, charSextet c₃ with
      | some s₂, some s₃ => (decode cs).map fun bs => byte₀ s₀ s₁ :: byte₁ s₁ s₂ :: byte₂ s₂ s₃ :: bs
      | some s₂, none => if c₃ = '=' ∧ cs = [] then some [byte₀ s₀ s₁, byte₁ s₁ s₂] else none
      | none, _ => if c₂ = '=' ∧ c₃ = '=' ∧ cs = [] then some [byte₀ s₀ s₁] else none
    | _, _ => none
  | _ => none

theorem charSextet_sextetChar {n} (h : n < 64) : charSextet (sextetChar n) = some n := by
  have all : ∀ i : Fin 64, charSextet (sextetChar i.val) = some i.val := by decide +kernel
  exact all ⟨n, h⟩

theorem charSextet_pad : charSextet '=' = none := by decide

theorem byte₀_split (a b : Byte) : byte₀ (a.val / 4) (a.val % 4 * 16 + b.val / 16) = a := by
  apply Fin.ext
  simp only [byte₀, Fin.val_ofNat]
  omega

theorem byte₁_split (a b c : Byte) : byte₁ (a.val % 4 * 16 + b.val / 16) (b.val % 16 * 4 + c.val / 64) = b := by
  apply Fin.ext
  simp only [byte₁, Fin.val_ofNat]
  omega

theorem byte₂_split (b c : Byte) : byte₂ (b.val % 16 * 4 + c.val / 64) (c.val % 64) = c := by
  apply Fin.ext
  simp only [byte₂, Fin.val_ofNat]
  omega

theorem decode_encode : ∀ bs : List Byte, decode (encode bs) = some bs
  | [] => rfl
  | [a] => by
    have h₀ := byte₀_split a 0
    simp only [Fin.val_zero, Nat.zero_div, Nat.add_zero] at h₀
    simp [encode, decode, charSextet_sextetChar (by omega : a.val / 4 < 64),
      charSextet_sextetChar (by omega : a.val % 4 * 16 < 64), charSextet_pad, h₀]
  | [a, b] => by
    have h₁ := byte₁_split a b 0
    simp only [Fin.val_zero, Nat.zero_div, Nat.add_zero] at h₁
    simp [encode, decode, charSextet_sextetChar (by omega : a.val / 4 < 64),
      charSextet_sextetChar (by omega : a.val % 4 * 16 + b.val / 16 < 64),
      charSextet_sextetChar (by omega : b.val % 16 * 4 < 64), charSextet_pad, byte₀_split, h₁]
  | a :: b :: c :: bs => by
    simp [encode, decode, charSextet_sextetChar (by omega : a.val / 4 < 64),
      charSextet_sextetChar (by omega : a.val % 4 * 16 + b.val / 16 < 64),
      charSextet_sextetChar (by omega : b.val % 16 * 4 + c.val / 64 < 64),
      charSextet_sextetChar (by omega : c.val % 64 < 64), byte₀_split, byte₁_split, byte₂_split, decode_encode bs]

example : encode (intBytes 1700000000123) = "MTcwMDAwMDAwMDEyMw==".toList := by decide

end Lib.Encoding
