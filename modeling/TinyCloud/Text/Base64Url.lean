import TinyCloud.Text.Utf

/-!
# Base64url without padding

Encoding is injective; the decoder accepts only what the encoder writes, by encoding again.
-/

namespace TinyCloud.Text

def sextetUnit (n : ℕ) : CodeUnit :=
  if n < 26 then UInt16.ofNat (65 + n)
  else if n < 52 then UInt16.ofNat (97 + (n - 26))
  else if n < 62 then UInt16.ofNat (48 + (n - 52))
  else if n = 62 then 45
  else 95

def unitSextet (u : CodeUnit) : Option ℕ :=
  let n := u.toNat
  if 65 ≤ n ∧ n ≤ 90 then some (n - 65)
  else if 97 ≤ n ∧ n ≤ 122 then some (n - 97 + 26)
  else if 48 ≤ n ∧ n ≤ 57 then some (n - 48 + 52)
  else if n = 45 then some 62
  else if n = 95 then some 63
  else none

def encodeSextets : Bytes → List ℕ
  | [] => []
  | [x] => [x.toNat / 4, x.toNat % 4 * 16]
  | [x, y] => [x.toNat / 4, x.toNat % 4 * 16 + y.toNat / 16, y.toNat % 16 * 4]
  | x :: y :: z :: rest =>
    x.toNat / 4 :: (x.toNat % 4 * 16 + y.toNat / 16) :: (y.toNat % 16 * 4 + z.toNat / 64) ::
      z.toNat % 64 :: encodeSextets rest

/-- The bits left over in the last sextet are dropped, as `atob` drops them. -/
def decodeSextets : List ℕ → Bytes
  | [a, b] => [UInt8.ofNat (a * 4 + b / 16)]
  | [a, b, c] => [UInt8.ofNat (a * 4 + b / 16), UInt8.ofNat (b % 16 * 16 + c / 4)]
  | a :: b :: c :: d :: rest =>
    UInt8.ofNat (a * 4 + b / 16) :: UInt8.ofNat (b % 16 * 16 + c / 4) ::
      UInt8.ofNat (c % 4 * 64 + d) :: decodeSextets rest
  | _ => []

def encodeBase64Url (bytes : Bytes) : JsString := (encodeSextets bytes).map sextetUnit

def decodeBase64Url (value : JsString) : Option Bytes := do
  let sextets ← value.mapM unitSextet
  if value = [] ∨ value.length % 4 = 1 then none
  else if encodeBase64Url (decodeSextets sextets) = value then some (decodeSextets sextets)
  else none

lemma unitSextet_sextetUnit : ∀ n < 64, unitSextet (sextetUnit n) = some n := by
  decide

lemma sextetUnit_injOn {m n : ℕ} (hm : m < 64) (hn : n < 64) (h : sextetUnit m = sextetUnit n) :
    m = n := by
  have h1 := unitSextet_sextetUnit m hm
  rw [h, unitSextet_sextetUnit n hn] at h1
  exact (Option.some.inj h1).symm

lemma encodeSextets_lt (bytes : Bytes) : ∀ n ∈ encodeSextets bytes, n < 64 := by
  induction bytes using encodeSextets.induct with
  | case1 => simp [encodeSextets]
  | case2 x =>
    have := x.toNat_lt
    simp only [encodeSextets, List.mem_cons, List.not_mem_nil, or_false]
    omega
  | case3 x y =>
    have := x.toNat_lt
    have := y.toNat_lt
    simp only [encodeSextets, List.mem_cons, List.not_mem_nil, or_false]
    omega
  | case4 x y z rest ih =>
    have := x.toNat_lt
    have := y.toNat_lt
    have := z.toNat_lt
    simp only [encodeSextets, List.mem_cons]
    rintro n (h | h | h | h | h)
    · omega
    · omega
    · omega
    · omega
    · exact ih n h

lemma decodeSextets_encodeSextets (bytes : Bytes) : decodeSextets (encodeSextets bytes) = bytes := by
  induction bytes using encodeSextets.induct with
  | case1 => rfl
  | case2 x =>
    simp only [encodeSextets, decodeSextets, List.cons.injEq, and_true]
    exact (byte_eq (by omega)).symm
  | case3 x y =>
    have := y.toNat_lt
    simp only [encodeSextets, decodeSextets, List.cons.injEq, and_true]
    exact ⟨(byte_eq (by omega)).symm, (byte_eq (by omega)).symm⟩
  | case4 x y z rest ih =>
    have := y.toNat_lt
    have := z.toNat_lt
    simp only [encodeSextets, decodeSextets, List.cons.injEq, ih, and_true]
    exact ⟨(byte_eq (by omega)).symm, (byte_eq (by omega)).symm, (byte_eq (by omega)).symm⟩

lemma map_sextetUnit_injective {l m : List ℕ} (hl : ∀ n ∈ l, n < 64) (hm : ∀ n ∈ m, n < 64)
    (h : l.map sextetUnit = m.map sextetUnit) : l = m := by
  induction l generalizing m with
  | nil => exact (List.map_eq_nil_iff.mp h.symm).symm
  | cons a l ih =>
    cases m with
    | nil => simp at h
    | cons b m =>
      simp only [List.map_cons, List.cons.injEq] at h
      rw [sextetUnit_injOn (hl a (by simp)) (hm b (by simp)) h.1,
        ih (fun n hn => hl n (by simp [hn])) (fun n hn => hm n (by simp [hn])) h.2]

theorem encodeBase64Url_injective : Function.Injective encodeBase64Url := by
  intro a b h
  have hs := map_sextetUnit_injective (encodeSextets_lt a) (encodeSextets_lt b) h
  rw [← decodeSextets_encodeSextets a, ← decodeSextets_encodeSextets b, hs]

theorem encodeBase64Url_of_decode {value : JsString} {bytes : Bytes}
    (h : decodeBase64Url value = some bytes) : encodeBase64Url bytes = value := by
  simp only [decodeBase64Url, Option.bind_eq_bind, Option.bind_eq_some_iff] at h
  obtain ⟨sextets, -, h⟩ := h
  split_ifs at h with h1 h2
  obtain rfl : decodeSextets sextets = bytes := by simpa using h
  exact h2

/-- What the encoder wrote decodes to nothing else. -/
theorem decodeBase64Url_encode {bytes decoded : Bytes}
    (h : decodeBase64Url (encodeBase64Url bytes) = some decoded) : decoded = bytes :=
  encodeBase64Url_injective (encodeBase64Url_of_decode h)

end TinyCloud.Text
