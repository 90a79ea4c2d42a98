import Formulary.Proofs.Text.Run
import Formulary.Text.Base64

/-!
# Decoding base 64

The text of a byte string is a run of six-bit values followed by the padding that its length asks
for, and decoding gives the bytes back.
-/
namespace Formulary.Text.Base64

theorem value?_letter {n : Nat} (h : n < 64) : value? (letter n) = some n := by
  have hall : ∀ n : Fin 64, value? (letter n.val) = some n.val := by decide +kernel
  exact hall ⟨n, h⟩

theorem byte_eq {n : Nat} {b : UInt8} (h : n % 256 = b.toNat) : byte n = b := by
  rw [byte, h, UInt8.ofNat_toNat]

/-- The six-bit values of a byte string. -/
def sextets : List UInt8 → List Nat
  | [] => []
  | [a] => [a.toNat / 4, a.toNat % 4 * 16]
  | [a, b] =>
    let n := a.toNat * 256 + b.toNat
    [n / 1024, n / 16 % 64, n % 16 * 4]
  | a :: b :: c :: rest =>
    let n := a.toNat * 65536 + b.toNat * 256 + c.toNat
    n / 262144 :: n / 4096 % 64 :: n / 64 % 64 :: n % 64 :: sextets rest

/-- How many characters are missing from the last group of four. -/
def padding : List UInt8 → Nat
  | [] => 0
  | [_] => 2
  | [_, _] => 1
  | _ :: _ :: _ :: rest => padding rest

theorem encode_eq (bs : List UInt8) :
    encode bs = (sextets bs).map letter ++ List.replicate (padding bs) '=' := by
  fun_induction encode bs with
  | case1 => rfl
  | case2 a => rfl
  | case3 a b => rfl
  | case4 a b c rest n ih => rw [ih, sextets, padding]; rfl

theorem sextets_lt (bs : List UInt8) : ∀ n ∈ sextets bs, n < 64 := by
  fun_induction sextets bs with
  | case1 => simp
  | case2 a =>
    have ha := a.toNat_lt
    simp only [List.mem_cons, List.not_mem_nil, or_false]
    rintro m (rfl | rfl) <;> omega
  | case3 a b n =>
    have ha := a.toNat_lt
    have hb := b.toNat_lt
    simp only [List.mem_cons, List.not_mem_nil, or_false]
    rintro m (rfl | rfl | rfl) <;> omega
  | case4 a b c rest n ih =>
    have ha := a.toNat_lt
    have hb := b.toNat_lt
    have hc := c.toNat_lt
    simp only [List.forall_mem_cons]
    exact ⟨by omega, by omega, by omega, by omega, ih⟩

theorem decodeValues_sextets (bs : List UInt8) :
    decodeValues (padding bs) (sextets bs) = some bs := by
  fun_induction sextets bs with
  | case1 => rfl
  | case2 a =>
    have ha := a.toNat_lt
    rw [padding, decodeValues, if_pos rfl, byte_eq]
    omega
  | case3 a b n =>
    have ha := a.toNat_lt
    have hb := b.toNat_lt
    have h₁ : byte (n / 1024 * 4 + n / 16 % 64 / 16) = a := byte_eq (by omega)
    have h₂ : byte (n / 16 % 64 * 16 + n % 16 * 4 / 4) = b := byte_eq (by omega)
    rw [padding, decodeValues, if_pos rfl, h₁, h₂]
  | case4 a b c rest n ih =>
    have ha := a.toNat_lt
    have hb := b.toNat_lt
    have hc := c.toNat_lt
    have h₁ : byte (n / 262144 * 4 + n / 4096 % 64 / 16) = a := byte_eq (by omega)
    have h₂ : byte (n / 4096 % 64 * 16 + n / 64 % 64 / 4) = b := byte_eq (by omega)
    have h₃ : byte (n / 64 % 64 * 64 + n % 64) = c := byte_eq (by omega)
    rw [padding, decodeValues, ih, Option.map_some, h₁, h₂, h₃]

theorem filterMap_value?_letter {ns : List Nat} (h : ∀ n ∈ ns, n < 64) :
    (ns.map letter).filterMap value? = ns := by
  induction ns with
  | nil => rfl
  | cons n ns ih =>
    rw [List.forall_mem_cons] at h
    rw [List.map_cons, List.filterMap_cons_some (value?_letter h.1), ih h.2]

theorem decode?_encode (bs : List UInt8) : decode? (encode bs) = some bs := by
  have hrun : ∀ c ∈ (sextets bs).map letter, (value? c).isSome = true := by
    rw [List.forall_mem_map]
    intro n hn
    rw [value?_letter (sextets_lt bs n hn), Option.isSome_some]
  have hrest : Stops (fun c => (value? c).isSome) (List.replicate (padding bs) '=') := by
    cases padding bs with
    | zero => exact stops_nil
    | succ k => exact stops_cons.2 rfl
  have hpad : (List.replicate (padding bs) '=').all (· == '=') = true := by simp
  -- padding stands only behind at least one letter
  have hsome : ((List.replicate (padding bs) '=').isEmpty || !((sextets bs).map letter).isEmpty) =
      true := by
    match bs with
    | [] => rfl
    | [_] => rfl
    | [_, _] => rfl
    | _ :: _ :: _ :: _ => simp [sextets]
  rw [decode?, encode_eq, takeWhile_run hrun hrest, dropWhile_run hrun hrest]
  simp only [hpad, hsome, Bool.and_self, if_true]
  rw [filterMap_value?_letter (sextets_lt bs), List.length_replicate, decodeValues_sextets]

end Formulary.Text.Base64
