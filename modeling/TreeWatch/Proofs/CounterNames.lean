import TreeWatch.Counter.Bump
import TreeWatch.Proofs.Spellings

/-!
# The names of counter files

The counter of a root lies in the root, under a name that is that of a counter file up to case, and
the sibling it is replaced through lies in the same directory under a longer name. Both names can
be those of entries.

Main results:
  * `counterPath_spec`: the path of a counter is its root with a name more
  * `temporaryPath_join`: the sibling lies where the counter does
-/

namespace TreeWatch

/-! ## Plain names -/

/-- A letter or a dot. -/
def IsPlain (c : Char) : Prop :=
  c.toNat = 46 ∨ 65 ≤ c.toNat ∧ c.toNat ≤ 90 ∨ 97 ≤ c.toNat ∧ c.toNat ≤ 122

instance (c : Char) : Decidable (IsPlain c) :=
  inferInstanceAs (Decidable (_ ∨ _))

theorem IsPlain.encode {c : Char} (h : IsPlain c) : String.utf8EncodeChar c = [c.val.toUInt8] := by
  refine String.utf8EncodeChar_eq_singleton (Char.utf8Size_eq_one_iff.mpr ?_)
  rw [UInt32.le_iff_toNat_le]
  show c.toNat ≤ 127
  unfold IsPlain at h
  omega

/-- The bytes of a plain text are those of its characters. -/
theorem bytes_of_plain {s : String} (h : ∀ c ∈ s.toList, IsPlain c) {b : UInt8}
    (hByte : b ∈ (ByteString.text s).bytes) : ∃ c ∈ s.toList, b.toNat = c.toNat := by
  obtain ⟨c, hMem, hByte⟩ := List.mem_flatMap.mp hByte
  rw [(h c hMem).encode, List.mem_singleton] at hByte
  refine ⟨c, hMem, ?_⟩
  have hSmall : c.toNat < 256 := by
    have hPlain := h c hMem
    unfold IsPlain at hPlain
    omega
  rw [hByte]
  exact Nat.mod_eq_of_lt hSmall

theorem size_le_length (s : String) : s.utf8ByteSize ≤ 4 * s.toList.length := by
  rw [← String.ofList_toList (s := s), String.toList_ofList]
  induction s.toList with
  | nil => simp
  | cons c rest ih =>
    have hChar := Char.utf8Size_le_four c
    rw [String.ofList_cons, String.utf8ByteSize_append, String.utf8ByteSize_singleton,
      List.length_cons]
    omega

/-- A plain text of some length can be the name of an entry. -/
theorem valid_of_plain {s : String} (h : ∀ c ∈ s.toList, IsPlain c)
    (hLong : 2 < s.toList.length) (hShort : s.toList.length ≤ 63) : Name.Valid (.text s) where
  noSlash hMem := by
    obtain ⟨c, hChar, hByte⟩ := bytes_of_plain h hMem
    have hPlain := h c hChar
    unfold IsPlain at hPlain
    have hSlash : (0x2F : UInt8).toNat = 47 := rfl
    omega
  noNul hMem := by
    obtain ⟨c, hChar, hByte⟩ := bytes_of_plain h hMem
    have hPlain := h c hChar
    unfold IsPlain at hPlain
    have hNul : (0 : UInt8).toNat = 0 := rfl
    omega
  short := by
    have hSize := size_le_length s
    show s.utf8ByteSize ≤ 255
    omega
  proper := by
    have hNe (t : String) (hLength : t.toList.length ≤ 2) : (.text s : Name) ≠ .text t := by
      intro hEq
      rw [ByteString.text.inj hEq] at hLong
      omega
    exact ⟨hNe "" (by decide), hNe "." (by decide), hNe ".." (by decide)⟩

/-! ## Counters and their siblings -/

theorem plain_of_isCounterName {name : String} (h : isCounterName name = true) {c : Char}
    (hMem : c ∈ name.toList) : IsPlain c := by
  unfold isCounterName sameIgnoringCase at h
  have hLower : c.toLower ∈ counterFileName.toList.map Char.toLower := by
    rw [← eq_of_beq h]
    exact List.mem_map_of_mem hMem
  -- what is no upper case letter is a character of the name in lower case itself
  by_cases hUpper : 65 ≤ c.toNat ∧ c.toNat ≤ 90
  · exact Or.inr (Or.inl hUpper)
  · have hSame : c.toLower = c := by
      have hRange : ¬ (c.val ≥ 65 ∧ c.val ≤ 90) := by
        simpa [UInt32.le_iff_toNat_le] using hUpper
      unfold Char.toLower
      exact dif_neg hRange
    rw [hSame] at hLower
    have hPlain : (counterFileName.toList.map Char.toLower).all (fun d => decide (IsPlain d)) =
        true := rfl
    exact of_decide_eq_true (List.all_eq_true.mp hPlain c hLower)

theorem length_of_isCounterName {name : String} (h : isCounterName name = true) :
    name.toList.length = 7 := by
  unfold isCounterName sameIgnoringCase at h
  have hLength := congrArg List.length (eq_of_beq h)
  rwa [List.length_map, List.length_map] at hLength

theorem valid_counterName {name : String} (h : isCounterName name = true) :
    Name.Valid (.text name) := by
  have hLength := length_of_isCounterName h
  exact valid_of_plain (fun c => plain_of_isCounterName h) (by omega) (by omega)

theorem valid_temporaryName {name : String} (h : isCounterName name = true) :
    Name.Valid (.text (name ++ temporarySuffix)) := by
  have hLength := length_of_isCounterName h
  have hSuffix : temporarySuffix.toList.length = 4 := rfl
  have hPlain : temporarySuffix.toList.all (fun c => decide (IsPlain c)) = true := rfl
  refine valid_of_plain (fun c hMem => ?_) ?_ ?_
  · rw [String.toList_append] at hMem
    rcases List.mem_append.mp hMem with hName | hEnd
    · exact plain_of_isCounterName h hName
    · exact of_decide_eq_true (List.all_eq_true.mp hPlain c hEnd)
  · rw [String.toList_append, List.length_append]
    omega
  · rw [String.toList_append, List.length_append]
    omega

theorem temporaryName_ne (name : String) : name ++ temporarySuffix ≠ name := by
  intro hEq
  have hLength := congrArg (fun s => s.toList.length) hEq
  have hSuffix : temporarySuffix.toList.length = 4 := rfl
  simp only [String.toList_append, List.length_append] at hLength
  omega

/-- The usual name is one of them. -/
theorem isCounterName_counterFileName : isCounterName counterFileName = true := by
  decide

/-- **The path of a counter** is its root with a name more: that of a file found there, or the usual
one. -/
theorem counterPath_spec {σ : Type} [FileSystem σ] (d : σ) (root : Path) :
    ∃ name, isCounterName name = true ∧ counterPath d root = root.join ⟨name⟩ ∧
      (name = counterFileName ∨ ∃ entries contents, FileSystem.list d root = .ok entries ∧
        (.text name, .file contents) ∈ entries) := by
  unfold counterPath
  dsimp only
  split
  · next entries hList =>
    cases hFound : entries.findSome? _ with
    | none => exact ⟨counterFileName, isCounterName_counterFileName, rfl, Or.inl rfl⟩
    | some path =>
      obtain ⟨⟨entryName, entry⟩, hMem, hNamed⟩ := List.exists_of_findSome?_eq_some hFound
      split at hNamed
      · next name contents hEq =>
        cases hEq
        split at hNamed
        · next hCounter =>
          exact ⟨name, hCounter, (Option.some.inj hNamed).symm,
            Or.inr ⟨entries, contents, hList, hMem⟩⟩
        · cases hNamed
      · cases hNamed
  · exact ⟨counterFileName, isCounterName_counterFileName, rfl, Or.inl rfl⟩

theorem exists_counterName {σ : Type} [FileSystem σ] (d : σ) (root : Path) :
    ∃ name, isCounterName name = true ∧ counterPath d root = root.join ⟨name⟩ := by
  obtain ⟨name, hName, hPath, -⟩ := counterPath_spec d root
  exact ⟨name, hName, hPath⟩

/-- **The sibling** lies where the counter does. -/
theorem temporaryPath_join (p : Path) {name : String} (hName : IsName name) :
    ∃ q : Path, q.SameAs p ∧
       temporaryPath (p.join ⟨name⟩) = q.join ⟨name ++ temporarySuffix⟩ := by
  obtain ⟨q, hParent, hSame⟩ := p.parent_join hName
  refine ⟨q, hSame, ?_⟩
  unfold temporaryPath Path.withFileName
  simp only [Path.fileName?_join p hName, hParent, Option.getD_some]

end TreeWatch
