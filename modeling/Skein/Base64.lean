import Mathlib.Data.List.Basic

/-!
# Base64

Three bytes make four characters; a last group of one or two bytes is padded. Decoding reads
four characters at a time and gives back the bytes.
-/
namespace Skein.Base64

def alphabet : List Char :=
  "ABCDEFGHIJKLMNOPQRSTUVWXYZabcdefghijklmnopqrstuvwxyz0123456789+/".toList

/-- The character of six bits. -/
def char (sextet : ℕ) : Char := alphabet.getD sextet '='

def value? (c : Char) : Option ℕ := alphabet.idxOf? c

def encode : List UInt8 → List Char
  | [] => []
  | [a] => [char (a.toNat / 4), char (a.toNat % 4 * 16), '=', '=']
  | [a, b] =>
    [char (a.toNat / 4), char (a.toNat % 4 * 16 + b.toNat / 16), char (b.toNat % 16 * 4), '=']
  | a :: b :: c :: rest =>
    char (a.toNat / 4) :: char (a.toNat % 4 * 16 + b.toNat / 16) ::
      char (b.toNat % 16 * 4 + c.toNat / 64) :: char (c.toNat % 64) :: encode rest

/-- The bytes of one group of four characters. -/
def decodeGroup (w x y z : Char) : Option (List UInt8) :=
  (value? w).bind fun w =>
    (value? x).bind fun x =>
      let first := UInt8.ofNat (w * 4 + x / 16)
      if y = '=' ∧ z = '=' then some [first]
      else
        (value? y).bind fun y =>
          let second := UInt8.ofNat (x % 16 * 16 + y / 4)
          if z = '=' then some [first, second]
          else (value? z).map fun z => [first, second, UInt8.ofNat (y % 4 * 64 + z)]

def decode : List Char → Option (List UInt8)
  | [] => some []
  | w :: x :: y :: z :: rest =>
    (decodeGroup w x y z).bind fun bytes => (decode rest).map (bytes ++ ·)
  | _ => none

theorem value?_char : ∀ n, n < 64 → value? (char n) = some n := by decide +kernel

theorem char_ne_pad : ∀ n, n < 64 → char n ≠ '=' := by decide +kernel

/-- A property of every character of an encoding: of the alphabet and the padding. -/
theorem forall_mem_encode {P : Char → Prop} (hchar : ∀ n, n < 64 → P (char n)) (hpad : P '=')
    (bytes : List UInt8) : ∀ c ∈ encode bytes, P c := by
  have hbyte : ∀ a : UInt8, a.toNat < 256 := fun a => a.toNat_lt
  induction bytes using encode.induct with
  | case1 => simp [encode]
  | case2 a =>
    have ha := hbyte a
    have hfirst := hchar (a.toNat / 4) (by omega)
    have hsecond := hchar (a.toNat % 4 * 16) (by omega)
    simpa [encode] using ⟨hfirst, hsecond, hpad⟩
  | case3 a b =>
    have ha := hbyte a
    have hb := hbyte b
    have hfirst := hchar (a.toNat / 4) (by omega)
    have hsecond := hchar (a.toNat % 4 * 16 + b.toNat / 16) (by omega)
    have hthird := hchar (b.toNat % 16 * 4) (by omega)
    simpa [encode] using ⟨hfirst, hsecond, hthird, hpad⟩
  | case4 a b c rest ih =>
    have ha := hbyte a
    have hb := hbyte b
    have hc := hbyte c
    have hfirst := hchar (a.toNat / 4) (by omega)
    have hsecond := hchar (a.toNat % 4 * 16 + b.toNat / 16) (by omega)
    have hthird := hchar (b.toNat % 16 * 4 + c.toNat / 64) (by omega)
    have hfourth := hchar (c.toNat % 64) (by omega)
    simpa [encode] using ⟨hfirst, hsecond, hthird, hfourth, ih⟩

theorem length_encode (bytes : List UInt8) :
    (encode bytes).length = 4 * ((bytes.length + 2) / 3) := by
  induction bytes using encode.induct with
  | case1 => rfl
  | case2 a => simp [encode]
  | case3 a b => simp [encode]
  | case4 a b c rest ih =>
    simp only [encode, List.length_cons, ih]
    omega

theorem ofNat_toNat_eq {a : UInt8} {n : ℕ} (h : n = a.toNat) : UInt8.ofNat n = a := by
  rw [h, UInt8.ofNat_toNat]

theorem decode_encode (bytes : List UInt8) : decode (encode bytes) = some bytes := by
  have hbyte : ∀ a : UInt8, a.toNat < 256 := fun a => a.toNat_lt
  induction bytes using encode.induct with
  | case1 => rfl
  | case2 a =>
    have ha := hbyte a
    have hfirst := value?_char (a.toNat / 4) (by omega)
    have hsecond := value?_char (a.toNat % 4 * 16) (by omega)
    have hbytes : UInt8.ofNat (a.toNat / 4 * 4 + a.toNat % 4 * 16 / 16) = a :=
      ofNat_toNat_eq (by omega)
    simp only [encode, decode, decodeGroup, hfirst, hsecond, hbytes, Option.bind_some, and_self,
      if_true, Option.map_some, List.append_nil]
  | case3 a b =>
    have ha := hbyte a
    have hb := hbyte b
    have hfirst := value?_char (a.toNat / 4) (by omega)
    have hsecond := value?_char (a.toNat % 4 * 16 + b.toNat / 16) (by omega)
    have hthird := value?_char (b.toNat % 16 * 4) (by omega)
    have hpad := char_ne_pad (b.toNat % 16 * 4) (by omega)
    have hbyteA : UInt8.ofNat (a.toNat / 4 * 4 + (a.toNat % 4 * 16 + b.toNat / 16) / 16) = a :=
      ofNat_toNat_eq (by omega)
    have hbyteB : UInt8.ofNat ((a.toNat % 4 * 16 + b.toNat / 16) % 16 * 16 +
        b.toNat % 16 * 4 / 4) = b := ofNat_toNat_eq (by omega)
    simp only [encode, decode, decodeGroup, hfirst, hsecond, hthird, hpad, hbyteA, hbyteB,
      Option.bind_some, false_and, if_false, if_true, Option.map_some, List.append_nil]
  | case4 a b c rest ih =>
    have ha := hbyte a
    have hb := hbyte b
    have hc := hbyte c
    have hfirst := value?_char (a.toNat / 4) (by omega)
    have hsecond := value?_char (a.toNat % 4 * 16 + b.toNat / 16) (by omega)
    have hthird := value?_char (b.toNat % 16 * 4 + c.toNat / 64) (by omega)
    have hfourth := value?_char (c.toNat % 64) (by omega)
    have hpadThird := char_ne_pad (b.toNat % 16 * 4 + c.toNat / 64) (by omega)
    have hpadFourth := char_ne_pad (c.toNat % 64) (by omega)
    have hbyteA : UInt8.ofNat (a.toNat / 4 * 4 + (a.toNat % 4 * 16 + b.toNat / 16) / 16) = a :=
      ofNat_toNat_eq (by omega)
    have hbyteB : UInt8.ofNat ((a.toNat % 4 * 16 + b.toNat / 16) % 16 * 16 +
        (b.toNat % 16 * 4 + c.toNat / 64) / 4) = b := ofNat_toNat_eq (by omega)
    have hbyteC : UInt8.ofNat ((b.toNat % 16 * 4 + c.toNat / 64) % 4 * 64 + c.toNat % 64) = c :=
      ofNat_toNat_eq (by omega)
    simp only [encode, decode, decodeGroup, hfirst, hsecond, hthird, hfourth, hpadThird,
      hpadFourth, hbyteA, hbyteB, hbyteC, ih, Option.bind_some, and_self, if_false,
      Option.map_some, List.cons_append, List.nil_append]

end Skein.Base64
