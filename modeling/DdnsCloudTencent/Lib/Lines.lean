import DdnsCloudTencent.Lib.ByteString

/-!
# Texts made of lines and of separated fields

- `getlines` is the list of lines a `while (std::getline(ss, line))` loop sees:
  every run of bytes up to a line feed, and a last unterminated run only when
  it is not empty. `getlines_append` and `getlines_last` compute it on a text
  that is assembled from lines, which is how a reader is run on a written file.
- `joinSep` writes fields with a separator between them and `splitSep` takes
  them apart again (`splitSep_joinSep`).
-/

namespace Cxx

/-- The line feed. -/
abbrev LF : UInt8 := 10

/-- The carriage return. -/
abbrev CR : UInt8 := 13

/-- The lines `std::getline` extracts until it fails. -/
def getlines : Bytes → List Bytes
  | [] => []
  | c :: s =>
    if c = LF then [] :: getlines s
    else match getlines s with
      | [] => [[c]]
      | l :: ls => (c :: l) :: ls

theorem getlines_append {l : Bytes} (h : LF ∉ l) (s : Bytes) :
    getlines (l ++ LF :: s) = l :: getlines s := by
  induction l with
  | nil => simp [getlines]
  | cons c l ih =>
    rw [List.mem_cons, not_or] at h
    rw [List.cons_append, getlines, if_neg (Ne.symm h.1), ih h.2]

theorem getlines_last {l : Bytes} (h : LF ∉ l) (hne : l ≠ []) : getlines l = [l] := by
  induction l with
  | nil => exact absurd rfl hne
  | cons c l ih =>
    rw [List.mem_cons, not_or] at h
    rw [getlines, if_neg (Ne.symm h.1)]
    cases l with
    | nil => rfl
    | cons d l => rw [ih h.2 (List.cons_ne_nil d l)]

/-- Lines hold bytes of the text only. -/
theorem mem_of_mem_getlines {s l : Bytes} {x : UInt8} (hl : l ∈ getlines s) (hx : x ∈ l) :
    x ∈ s := by
  induction s generalizing l with
  | nil => cases hl
  | cons c s ih =>
    rw [getlines] at hl
    split at hl
    · rcases List.mem_cons.mp hl with rfl | hl
      · cases hx
      · exact List.mem_cons_of_mem c (ih hl hx)
    · split at hl
      · rw [List.mem_singleton.mp hl] at hx
        exact List.mem_cons.mpr (.inl (List.mem_singleton.mp hx))
      · next m ms heq =>
        rcases List.mem_cons.mp hl with rfl | hl
        · rcases List.mem_cons.mp hx with rfl | hx
          · exact List.mem_cons_self ..
          · exact List.mem_cons_of_mem c (ih (by rw [heq]; exact List.mem_cons_self ..) hx)
        · exact List.mem_cons_of_mem c (ih (by rw [heq]; exact List.mem_cons_of_mem _ hl) hx)

/-! ## Separated fields -/

/-- The fields with one `c` between each two. -/
def joinSep (c : UInt8) : List Bytes → Bytes
  | [] => []
  | [l] => l
  | l :: m :: ls => l ++ c :: joinSep c (m :: ls)

theorem mem_joinSep {c x : UInt8} :
    ∀ {ls : List Bytes}, x ∈ joinSep c ls → x = c ∨ ∃ l ∈ ls, x ∈ l
  | [l], h => .inr ⟨l, List.mem_singleton_self l, h⟩
  | l :: m :: ls, h => by
    rcases List.mem_append.mp h with h | h
    · exact .inr ⟨l, List.mem_cons_self, h⟩
    · rcases List.mem_cons.mp h with h | h
      · exact .inl h
      · rcases mem_joinSep h with h | ⟨k, hk, hx⟩
        · exact .inl h
        · exact .inr ⟨k, List.mem_cons_of_mem l hk, hx⟩

/-- The fields between the occurrences of `c`. -/
def splitSep (c : UInt8) : Bytes → List Bytes
  | [] => [[]]
  | d :: s =>
    if d = c then [] :: splitSep c s
    else match splitSep c s with
      | [] => [[d]]
      | l :: ls => (d :: l) :: ls

theorem splitSep_append {c : UInt8} {l : Bytes} (h : c ∉ l) (s : Bytes) :
    splitSep c (l ++ c :: s) = l :: splitSep c s := by
  induction l with
  | nil => simp [splitSep]
  | cons d l ih =>
    rw [List.mem_cons, not_or] at h
    rw [List.cons_append, splitSep, if_neg (Ne.symm h.1), ih h.2]

theorem splitSep_of_notMem {c : UInt8} {l : Bytes} (h : c ∉ l) : splitSep c l = [l] := by
  induction l with
  | nil => rfl
  | cons d l ih =>
    rw [List.mem_cons, not_or] at h
    rw [splitSep, if_neg (Ne.symm h.1), ih h.2]

-- a separator ends a line; any other byte is put in front of the first one
theorem mem_splitSep {c x : UInt8} {s : Bytes} (h : x ∈ s) :
    x = c ∨ ∃ l ∈ splitSep c s, x ∈ l := by
  induction s with
  | nil => cases h
  | cons d s ih =>
    rw [splitSep]
    split
    · next hd =>
      rcases List.mem_cons.mp h with rfl | h
      · exact .inl hd
      · rcases ih h with hx | ⟨l, hl, hx⟩
        · exact .inl hx
        · exact .inr ⟨l, List.mem_cons_of_mem _ hl, hx⟩
    · split
      · next hnil =>
        rcases List.mem_cons.mp h with rfl | h
        · exact .inr ⟨[x], List.mem_singleton_self _, List.mem_singleton_self x⟩
        · rcases ih h with hx | ⟨l, hl, hx⟩
          · exact .inl hx
          · rw [hnil] at hl
            cases hl
      · next l ls heq =>
        rcases List.mem_cons.mp h with rfl | h
        · exact .inr ⟨x :: l, List.mem_cons_self, List.mem_cons_self⟩
        · rcases ih h with hx | ⟨k, hk, hx⟩
          · exact .inl hx
          · rw [heq] at hk
            rcases List.mem_cons.mp hk with rfl | hk
            · exact .inr ⟨d :: k, List.mem_cons_self, List.mem_cons_of_mem d hx⟩
            · exact .inr ⟨k, List.mem_cons_of_mem _ hk, hx⟩

/-- Fields without the separator in them are recovered. -/
theorem splitSep_joinSep {c : UInt8} :
    ∀ {ls : List Bytes}, ls ≠ [] → (∀ l ∈ ls, c ∉ l) → splitSep c (joinSep c ls) = ls
  | [], hne, _ => absurd rfl hne
  | [l], _, h => splitSep_of_notMem (h l (List.mem_singleton_self l))
  | l :: m :: ls, _, h => by
    rw [joinSep, splitSep_append (h l (List.mem_cons_self ..)),
      splitSep_joinSep (List.cons_ne_nil m ls) fun k hk => h k (List.mem_cons_of_mem l hk)]

end Cxx
