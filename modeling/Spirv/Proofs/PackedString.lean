import Mathlib
import Spirv.PackedString
import Spirv.Proofs.Utf8
import Spirv.Proofs.Word

/-!
Strings in words, as a property of the words alone. Unpacking finds the string at the start of a
list of words whatever follows it, and packing followed by unpacking gives the bytes back.
-/

namespace Spirv.PackedString

/-- The words hold a string and nothing after it: its zero byte stands in the last of them. -/
def IsString (ws : List Word) : Prop :=
  ∃ init last, ws = init ++ [last] ∧ (∀ w ∈ init, (0 : UInt8) ∉ w.bytes) ∧ 0 ∈ last.bytes

/-- The bytes before the first zero byte. -/
def bytesOf (ws : List Word) : List UInt8 := (ws.flatMap Word.bytes).takeWhile (· ≠ 0)

lemma takeBytes_of_mem {acc bytes : List UInt8} (h : 0 ∈ bytes) :
    takeBytes acc bytes = ((bytes.takeWhile (· ≠ 0)).reverse ++ acc, true) := by
  induction bytes generalizing acc with
  | nil => simp at h
  | cons b rest ih =>
    by_cases hb : b = 0
    · simp [takeBytes, hb]
    · have hr : 0 ∈ rest := by simpa [Ne.symm hb] using h
      simp [takeBytes, hb, ih hr]

lemma takeBytes_of_not_mem {acc bytes : List UInt8} (h : 0 ∉ bytes) :
    takeBytes acc bytes = (bytes.reverse ++ acc, false) := by
  induction bytes generalizing acc with
  | nil => rfl
  | cons b rest ih =>
    obtain ⟨hb, hr⟩ : 0 ≠ b ∧ 0 ∉ rest := by simpa using h
    simp [takeBytes, hb.symm, ih hr]

lemma go_of_not_mem {acc : List UInt8} {n : ℕ} {w : Word} {rest : List Word}
    (h : (0 : UInt8) ∉ w.bytes) :
    unpack?.go acc n (w :: rest) = unpack?.go (w.bytes.reverse ++ acc) (n + 1) rest := by
  simp [unpack?.go, takeBytes_of_not_mem h]

lemma go_of_mem {acc : List UInt8} {n : ℕ} {w : Word} {rest : List Word}
    (h : (0 : UInt8) ∈ w.bytes) :
    unpack?.go acc n (w :: rest) = some (acc.reverse ++ w.bytes.takeWhile (· ≠ 0), n) := by
  simp [unpack?.go, takeBytes_of_mem h]

lemma go_append {acc : List UInt8} {n : ℕ} {init tail : List Word} {last : Word}
    (hi : ∀ w ∈ init, (0 : UInt8) ∉ w.bytes) (hl : (0 : UInt8) ∈ last.bytes) :
    unpack?.go acc n (init ++ last :: tail)
      = some (acc.reverse ++ init.flatMap Word.bytes ++ last.bytes.takeWhile (· ≠ 0),
          n + init.length) := by
  induction init generalizing acc n with
  | nil => simp [go_of_mem hl]
  | cons w init ih =>
    rw [List.cons_append, go_of_not_mem (hi w (by simp)), ih fun v hv => hi v (by simp [hv])]
    simp only [List.reverse_append, List.reverse_reverse, List.flatMap_cons, List.append_assoc,
      List.length_cons]
    congr 2
    omega

lemma bytesOf_append {init : List Word} {last : Word}
    (hi : ∀ w ∈ init, (0 : UInt8) ∉ w.bytes) :
    bytesOf (init ++ [last]) = init.flatMap Word.bytes ++ last.bytes.takeWhile (· ≠ 0) := by
  have h : ∀ b ∈ init.flatMap Word.bytes, decide (b ≠ 0) = true := by
    intro b hb
    obtain ⟨w, hw, hbw⟩ := List.mem_flatMap.mp hb
    simpa using fun h0 : b = 0 => hi w hw (h0 ▸ hbw)
  rw [bytesOf, List.flatMap_append, List.takeWhile_append_of_pos h]
  simp

/-- A string is found at the start of the words it is followed by. -/
lemma unpack?_append {ws : List Word} (h : IsString ws) (tail : List Word) :
    unpack? (ws ++ tail) = some (bytesOf ws, ws.length) := by
  obtain ⟨init, last, rfl, hi, hl⟩ := h
  rw [List.append_assoc, List.singleton_append, unpack?, go_append hi hl, bytesOf_append hi]
  simp [Nat.add_comm]

/-- What is found is a string, and the words after it do not matter. -/
lemma exists_of_unpack? {words : List Word} {bytes : List UInt8} {n : ℕ}
    (h : unpack? words = some (bytes, n)) :
    ∃ ws tail, words = ws ++ tail ∧ IsString ws ∧ bytes = bytesOf ws ∧ n = ws.length := by
  by_cases hz : ∃ w ∈ words, (0 : UInt8) ∈ w.bytes
  · obtain ⟨w, hw, h0⟩ := hz
    -- the string ends at the first word with a zero byte
    obtain ⟨init, last, tail, rfl, hl, hi⟩ :
        ∃ init last tail, words = init ++ last :: tail ∧ (0 : UInt8) ∈ last.bytes ∧
          ∀ v ∈ init, (0 : UInt8) ∉ v.bytes := by
      have hd : (words.find? fun v => decide (0 ∈ v.bytes)).isSome :=
        List.find?_isSome.mpr ⟨w, hw, decide_eq_true h0⟩
      obtain ⟨last, hlast⟩ := Option.isSome_iff_exists.mp hd
      obtain ⟨hp, init, tail, rfl, hi⟩ := List.find?_eq_some_iff_append.mp hlast
      exact ⟨init, last, tail, rfl, of_decide_eq_true hp, fun v hv => by simpa using hi v hv⟩
    have hs : IsString (init ++ [last]) := ⟨init, last, rfl, hi, hl⟩
    have hu := unpack?_append hs tail
    rw [List.append_assoc, List.singleton_append, h] at hu
    obtain ⟨rfl, rfl⟩ := by simpa using hu
    exact ⟨init ++ [last], tail, by simp, hs, rfl, by simp⟩
  · have hn : ∀ (acc : List UInt8) (n : ℕ) (ws : List Word),
        (∀ w ∈ ws, (0 : UInt8) ∉ w.bytes) → unpack?.go acc n ws = none := by
      intro acc n ws
      induction ws generalizing acc n with
      | nil => intro _; rfl
      | cons w ws ih =>
        intro hw
        rw [go_of_not_mem (hw w (by simp))]
        exact ih _ _ fun v hv => hw v (by simp [hv])
    rw [unpack?, hn [] 1 words fun w hw h0 => hz ⟨w, hw, h0⟩] at h
    simp at h

lemma IsString.ne_nil {ws : List Word} (h : IsString ws) : ws ≠ [] := by
  obtain ⟨init, last, rfl, -, -⟩ := h
  simp

/-! ### Packing -/

lemma packBytes_eq_append (acc : List Word) (bytes : List UInt8) :
    packBytes acc bytes = acc.reverse ++ packBytes [] bytes := by
  induction hn : bytes.length using Nat.strong_induction_on generalizing acc bytes with
  | _ n ih =>
  subst hn
  match bytes with
  | a :: b :: c :: d :: rest =>
    have hlen : rest.length < (a :: b :: c :: d :: rest).length := by
      simp only [List.length_cons]
      omega
    rw [packBytes, packBytes, ih _ hlen (_ :: acc) rest rfl, ih _ hlen [_] rest rfl]
    simp
  | [a, b, c] | [a, b] | [a] | [] => simp [packBytes]

lemma packBytes_bytes_append (w : Word) (bytes : List UInt8) :
    packBytes [] (w.bytes ++ bytes) = w :: packBytes [] bytes := by
  change packBytes [Word.ofBytes _ _ _ _] bytes = _
  rw [packBytes_eq_append, Word.ofBytes_of_bytes (w := w) rfl]
  rfl

/-- What is left of the bytes at the end goes into one word with zero bytes after it. -/
lemma packBytes_of_length_lt (bytes : List UInt8) (h : bytes.length < 4) :
    ∃ w k, packBytes [] bytes = [w] ∧ w.bytes = bytes ++ List.replicate (k + 1) 0 := by
  match bytes with
  | [a, b, c] => exact ⟨_, 0, rfl, by simp⟩
  | [a, b] => exact ⟨_, 1, rfl, by simp⟩
  | [a] => exact ⟨_, 2, rfl, by simp⟩
  | [] => exact ⟨_, 3, rfl, by decide⟩
  | _ :: _ :: _ :: _ :: _ =>
    simp only [List.length_cons] at h
    omega

lemma isString_cons {w : Word} {ws : List Word} (hw : (0 : UInt8) ∉ w.bytes) (h : IsString ws) :
    IsString (w :: ws) ∧ bytesOf (w :: ws) = w.bytes ++ bytesOf ws := by
  obtain ⟨init, last, rfl, hi, hl⟩ := h
  have hi' : ∀ v ∈ w :: init, (0 : UInt8) ∉ v.bytes := List.forall_mem_cons.mpr ⟨hw, hi⟩
  refine ⟨⟨w :: init, last, rfl, hi', hl⟩, ?_⟩
  rw [← List.cons_append, bytesOf_append hi', bytesOf_append hi]
  simp

lemma isString_packBytes {bytes : List UInt8} (h : 0 ∉ bytes) :
    IsString (packBytes [] bytes) ∧ bytesOf (packBytes [] bytes) = bytes := by
  induction hn : bytes.length using Nat.strong_induction_on generalizing bytes with
  | _ n ih =>
  subst hn
  have htail : bytes.length < 4 →
      IsString (packBytes [] bytes) ∧ bytesOf (packBytes [] bytes) = bytes := by
    intro hlen
    obtain ⟨w, k, hp, hw⟩ := packBytes_of_length_lt bytes hlen
    rw [hp]
    refine ⟨⟨[], w, rfl, by simp, by simp [hw]⟩, ?_⟩
    rw [bytesOf, List.flatMap_singleton, hw, List.takeWhile_append_of_pos]
    · simp [List.replicate_succ]
    · exact fun b hb => by simpa using fun h0 : b = 0 => h (h0 ▸ hb)
  match bytes with
  | a :: b :: c :: d :: rest =>
    have h0 : (0 : UInt8) ∉ (Word.ofBytes a b c d).bytes := by
      rw [Word.bytes_ofBytes]
      exact fun h0 => h (by simp_all)
    have hlen : rest.length < (a :: b :: c :: d :: rest).length := by
      simp only [List.length_cons]
      omega
    obtain ⟨hs, hbytes⟩ := ih _ hlen (fun h0 => h (by simp [h0])) rfl
    obtain ⟨hs', hbytes'⟩ := isString_cons h0 hs
    have hw := packBytes_bytes_append (Word.ofBytes a b c d) rest
    rw [Word.bytes_ofBytes] at hw
    simp only [List.cons_append, List.nil_append] at hw
    rw [hw, hbytes', hbytes, Word.bytes_ofBytes]
    exact ⟨hs', rfl⟩
  | [a, b, c] | [a, b] | [a] | [] => exact htail (by simp)

/-- After its zero byte a string has zero bytes only. -/
def ZeroPadded (ws : List Word) : Prop :=
  ∀ b ∈ (ws.flatMap Word.bytes).dropWhile (· ≠ 0), b = 0

/-- A string with nothing but zeros after it is packed again from its bytes. -/
lemma packBytes_bytesOf {ws : List Word} (h : IsString ws) (hz : ZeroPadded ws) :
    packBytes [] (bytesOf ws) = ws := by
  obtain ⟨init, last, rfl, hi, hl⟩ := h
  rw [bytesOf_append hi]
  induction init with
  | nil =>
    have hsplit := List.takeWhile_append_dropWhile (p := (· ≠ 0)) (l := last.bytes)
    have hzeros : last.bytes.dropWhile (· ≠ 0)
        = List.replicate (last.bytes.dropWhile (· ≠ 0)).length 0 :=
      List.eq_replicate_iff.mpr ⟨rfl, by simpa [ZeroPadded] using hz⟩
    have hlen : (last.bytes.takeWhile (· ≠ 0)).length + (last.bytes.dropWhile (· ≠ 0)).length = 4 := by
      rw [← List.length_append, hsplit]
      rfl
    have hpos : (last.bytes.dropWhile (· ≠ 0)) ≠ [] := fun hnil => by
      rw [List.dropWhile_eq_nil_iff] at hnil
      simpa using hnil 0 hl
    have hpos := List.length_pos_iff.mpr hpos
    obtain ⟨w, k, hp, hw⟩ :=
      packBytes_of_length_lt (last.bytes.takeWhile (· ≠ 0)) (by omega)
    have hwlen := congrArg List.length hw
    rw [List.length_append, List.length_replicate, show w.bytes.length = 4 from rfl] at hwlen
    have hk : k + 1 = (last.bytes.dropWhile (· ≠ 0)).length := by omega
    rw [hk, ← hzeros, hsplit] at hw
    rw [List.flatMap_nil, List.nil_append, hp, Word.bytes_injective hw, List.nil_append]
  | cons w init ih =>
    obtain ⟨hw, hi⟩ := List.forall_mem_cons.mp hi
    have hskip : ∀ b ∈ w.bytes, decide (b ≠ 0) = true := fun b hb => by
      simpa using fun h0 : b = 0 => hw (h0 ▸ hb)
    rw [ZeroPadded, List.cons_append, List.flatMap_cons,
      List.dropWhile_append_of_pos hskip] at hz
    rw [List.flatMap_cons, List.append_assoc, packBytes_bytes_append, ih hz hi, List.cons_append]

/-- Packing a text without the character zero gives a string, which holds the bytes of the text. -/
lemma isString_pack {s : List Char} (h : '\x00' ∉ s) :
    IsString (pack s) ∧ bytesOf (pack s) = Text.Utf8.encode s :=
  isString_packBytes (Text.Utf8.zero_not_mem_encode h)

end Spirv.PackedString
