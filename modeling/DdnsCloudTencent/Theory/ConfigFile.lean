import DdnsCloudTencent.Inc.Config

/-!
# What the two configuration readers recover (main.cpp:36, custom_cloudTencent.cpp:85)

A configuration text is a list of lines: the six entries `name=value`, each
perhaps with a `;` and a comment behind it, and lines of any other kind between
them. `fileText` writes it out with the line ends chosen freely.

- `trimLine_entry`: trimming an entry's line leaves `name=value`, whatever the
  line end and the comment are;
- `foldl_readers`: so each reader's loop is a sequence of assignments, one for
  every entry in the order of the text;
- `configReaders_recover`: as the assignments are to different fields, the order
  does not matter, and both readers return the values that were written.
-/

namespace DdnsCloudTencent.ConfigFile

open Cxx

/-- The six names. -/
inductive Key where
  | key
  | keyid
  | domainName
  | domainSubname
  | checkIpUrlIpv4
  | checkIpUrlIpv6
deriving DecidableEq

/-- `name=`. -/
def Key.tag : Key → Bytes
  | .key => bytes "key="
  | .keyid => bytes "keyid="
  | .domainName => bytes "domain_name="
  | .domainSubname => bytes "domain_subname="
  | .checkIpUrlIpv4 => bytes "check_ip_url_ipv4="
  | .checkIpUrlIpv6 => bytes "check_ip_url_ipv6="

/-- Every name once. -/
def Key.all : List Key :=
  [.key, .keyid, .domainName, .domainSubname, .checkIpUrlIpv4, .checkIpUrlIpv6]

/-- The character that ends an entry. -/
abbrev semicolon : UInt8 := 59

/-- A value that can stand in an entry. -/
def Plain (value : Bytes) : Prop := LF ∉ value ∧ CR ∉ value ∧ semicolon ∉ value

instance (value : Bytes) : Decidable (Plain value) :=
  inferInstanceAs (Decidable (_ ∧ _ ∧ _))

/-- A line of the file, without its end. -/
inductive Line where
  | entry (k : Key) (comment : Option Bytes)
  | other (text : Bytes)

/-- The entry a line makes. -/
def Line.key : Line → Option Key
  | .entry k _ => some k
  | .other _ => none

/-- No line feed inside, and what is not an entry starts like none. -/
def Line.WellFormed : Line → Prop
  | .entry _ none => True
  | .entry _ (some comment) => LF ∉ comment
  | .other text => LF ∉ text ∧ ∀ k : Key, ¬ k.tag <+: text

/-- The bytes of a line, given the value of each name. -/
def Line.text (value : Key → Bytes) : Line → Bytes
  | .entry k none => k.tag ++ value k
  | .entry k (some comment) => k.tag ++ value k ++ semicolon :: comment
  | .other text => text

/-- The end of a line. -/
inductive Eol where
  | lf
  | crlf

/-- What stands before the line feed of a line end. -/
def Eol.cr : Eol → Bytes
  | .lf => []
  | .crlf => [CR]

/-- The file: terminated lines, and perhaps one last line that is not. -/
def fileText (value : Key → Bytes) : List (Line × Eol) → Option Line → Bytes
  | [], none => []
  | [], some l => l.text value
  | (l, e) :: ls, last => l.text value ++ e.cr ++ LF :: fileText value ls last

/-- All lines of the file. -/
def allLines (ls : List (Line × Eol)) (last : Option Line) : List Line :=
  ls.map Prod.fst ++ last.toList

variable {value : Key → Bytes}

/-! ## One line -/

theorem tag_lf_notMem (k : Key) : LF ∉ k.tag := by cases k <;> decide

theorem tag_cr_notMem (k : Key) : CR ∉ k.tag := by cases k <;> decide

theorem tag_semicolon_notMem (k : Key) : semicolon ∉ k.tag := by cases k <;> decide

theorem tag_ne_nil (k : Key) : k.tag ≠ [] := by cases k <;> decide

theorem isPrefixOf_tag (k k' : Key) (v : Bytes) :
    k.tag.isPrefixOf (k'.tag ++ v) = decide (k = k') := by
  cases k <;> cases k' <;> rfl

theorem tag_prefix_iff {k k' : Key} {v : Bytes} : k.tag <+: k'.tag ++ v ↔ k = k' := by
  rw [← List.isPrefixOf_iff_prefix, isPrefixOf_tag, decide_eq_true_iff]

theorem take_eq_tag_iff (k : Key) (line : Bytes) :
    line.take k.tag.length = k.tag ↔ k.tag <+: line :=
  ⟨fun h => List.prefix_iff_eq_take.mpr h.symm, fun h => (List.prefix_iff_eq_take.mp h).symm⟩

theorem trimLine_prefix_line (line : Bytes) : trimLine line <+: line := by
  unfold trimLine
  refine (List.takeWhile_prefix _).trans ?_
  split
  · exact List.dropLast_prefix line
  · exact List.prefix_rfl

/-- A text without `\r` and `;` is left alone, and a `\r` behind it dropped. -/
theorem trimLine_plain {s : Bytes} (hcr : CR ∉ s) (hsemi : semicolon ∉ s) (e : Eol) :
    trimLine (s ++ e.cr) = s := by
  have hdrop : (if (s ++ e.cr).getLast? = some CR then (s ++ e.cr).dropLast
      else s ++ e.cr) = s := by
    cases e with
    | lf =>
      have hlast : ¬ s.getLast? = some CR := fun h => hcr (List.mem_of_getLast? h)
      simp only [Eol.cr, List.append_nil]
      rw [if_neg hlast]
    | crlf => simp [Eol.cr]
  unfold trimLine
  simp only [hdrop]
  refine List.takeWhile_eq_self_iff.mpr fun c hc => ?_
  have hne : c ≠ semicolon := fun h => hsemi (h ▸ hc)
  simpa using hne

/-- Everything from the first `;` on goes, and with it a final `\r`. -/
theorem trimLine_comment {s : Bytes} (hsemi : semicolon ∉ s) (c : Bytes) :
    trimLine (s ++ semicolon :: c) = s := by
  obtain ⟨c', hc'⟩ : ∃ c', (if (s ++ semicolon :: c).getLast? = some CR then
      (s ++ semicolon :: c).dropLast else s ++ semicolon :: c) = s ++ semicolon :: c' := by
    split
    · next hlast =>
      rcases List.eq_nil_or_concat c with rfl | ⟨c', x, rfl⟩
      · exact absurd (by simpa using hlast) (show semicolon ≠ CR by decide)
      · refine ⟨c', ?_⟩
        rw [List.concat_eq_append, ← List.cons_append, ← List.append_assoc, List.dropLast_concat]
    · exact ⟨c, rfl⟩
  unfold trimLine
  simp only [hc']
  rw [List.takeWhile_append_of_pos]
  · simp
  · intro x hx
    have hne : x ≠ semicolon := fun h => hsemi (h ▸ hx)
    simpa using hne

/-- Trimming an entry's line leaves `name=value`. -/
theorem trimLine_entry (hv : ∀ k, Plain (value k)) (k : Key) (comment : Option Bytes) (e : Eol) :
    trimLine ((Line.entry k comment).text value ++ e.cr) = k.tag ++ value k := by
  obtain ⟨-, hcr, hsemi⟩ := hv k
  have hcr' : CR ∉ k.tag ++ value k :=
    fun h => (List.mem_append.mp h).elim (tag_cr_notMem k) hcr
  have hsemi' : semicolon ∉ k.tag ++ value k :=
    fun h => (List.mem_append.mp h).elim (tag_semicolon_notMem k) hsemi
  cases comment with
  | none => exact trimLine_plain hcr' hsemi' e
  | some c =>
    rw [Line.text, List.append_assoc, List.cons_append]
    exact trimLine_comment hsemi' (c ++ e.cr)

/-- What an entry does to `g_file_config`. -/
def assignConfig (value : Key → Bytes) (g : Config) : Key → Config
  | .domainName => { g with domainName := value .domainName }
  | .domainSubname => { g with domainSubname := value .domainSubname }
  | .checkIpUrlIpv4 => { g with checkIpUrlIpv4 := value .checkIpUrlIpv4 }
  | .checkIpUrlIpv6 => { g with checkIpUrlIpv6 := value .checkIpUrlIpv6 }
  | .key | .keyid => g

/-- What an entry does to the credentials. -/
def assignCredentials (value : Key → Bytes) (c : Credentials) : Key → Credentials
  | .key => { c with securityKey := value .key }
  | .keyid => { c with securityId := value .keyid }
  | _ => c

/-- The prefix chain of `file_config_read` on a trimmed line. -/
theorem fileConfigReadLine_eq (g : Config) (line : Bytes) :
    fileConfigReadLine g line =
      if Key.domainName.tag <+: trimLine line then
        { g with domainName := (trimLine line).drop 12 }
      else if Key.domainSubname.tag <+: trimLine line then
        { g with domainSubname := (trimLine line).drop 15 }
      else if Key.checkIpUrlIpv4.tag <+: trimLine line then
        { g with checkIpUrlIpv4 := (trimLine line).drop 18 }
      else if Key.checkIpUrlIpv6.tag <+: trimLine line then
        { g with checkIpUrlIpv6 := (trimLine line).drop 18 }
      else g := by
  simp only [← take_eq_tag_iff]
  rfl

/-- The prefix chain of `file_security_config_read` on a trimmed line. -/
theorem fileSecurityConfigReadLine_eq (c : Credentials) (line : Bytes) :
    fileSecurityConfigReadLine c line =
      if Key.key.tag <+: trimLine line then { c with securityKey := (trimLine line).drop 4 }
      else if Key.keyid.tag <+: trimLine line then
        { c with securityId := (trimLine line).drop 6 }
      else c := by
  simp only [← take_eq_tag_iff]
  rfl

theorem fileConfigReadLine_entry (hv : ∀ k, Plain (value k)) (g : Config) (k : Key)
    (comment : Option Bytes) (e : Eol) :
    fileConfigReadLine g ((Line.entry k comment).text value ++ e.cr) = assignConfig value g k := by
  rw [fileConfigReadLine_eq, trimLine_entry hv]
  simp only [tag_prefix_iff]
  cases k <;> rfl

theorem fileSecurityConfigReadLine_entry (hv : ∀ k, Plain (value k)) (c : Credentials) (k : Key)
    (comment : Option Bytes) (e : Eol) :
    fileSecurityConfigReadLine c ((Line.entry k comment).text value ++ e.cr) =
      assignCredentials value c k := by
  rw [fileSecurityConfigReadLine_eq, trimLine_entry hv]
  simp only [tag_prefix_iff]
  cases k <;> rfl

/-- A line that starts like no entry still does after trimming. -/
theorem not_tag_prefix_trimLine {text : Bytes} (h : ∀ k : Key, ¬ k.tag <+: text) (e : Eol)
    (k : Key) : ¬ k.tag <+: trimLine (text ++ e.cr) := by
  intro hk
  have hall : k.tag <+: text ++ e.cr := hk.trans (trimLine_prefix_line _)
  cases e with
  | lf => exact h k (by simpa [Eol.cr] using hall)
  | crlf =>
    -- a tag holds no `\r`, so it cannot reach into the line end
    rcases List.prefix_concat_iff.mp hall with heq | hpre
    · have hcr : CR ∈ k.tag := by rw [heq]; simp
      exact tag_cr_notMem k hcr
    · exact h k hpre

/-! ## The whole file -/

theorem lf_notMem_text (hv : ∀ k, Plain (value k)) {l : Line} (hl : l.WellFormed) (e : Eol) :
    LF ∉ l.text value ++ e.cr := by
  have hcr : LF ∉ e.cr := by cases e <;> decide
  have hentry : ∀ k : Key, LF ∉ k.tag ++ value k :=
    fun k h => (List.mem_append.mp h).elim (tag_lf_notMem k) (hv k).1
  intro h
  rcases List.mem_append.mp h with h | h
  · match l, hl with
    | .entry k none, _ => exact hentry k h
    | .entry k (some c), hc =>
      rcases List.mem_append.mp h with h | h
      · exact hentry k h
      · rcases List.mem_cons.mp h with h | h
        · exact absurd h (by decide)
        · exact hc h
    | .other text, hc => exact hc.1 h
  · exact hcr h

section Reader

variable {S : Type} {step : S → Bytes → S} {assign : S → Key → S}

/-- The loop of a reader over a file, given what it does to one line: an entry
is an assignment, any other line nothing. -/
theorem foldl_readers (hv : ∀ k, Plain (value k))
    (hentry : ∀ s k comment (e : Eol),
      step s ((Line.entry k comment).text value ++ e.cr) = assign s k)
    (hother : ∀ s text (e : Eol), (Line.other text).WellFormed → step s (text ++ e.cr) = s)
    (ls : List (Line × Eol)) (last : Option Line)
    (hwf : ∀ l ∈ allLines ls last, l.WellFormed) (s : S) :
    (getlines (fileText value ls last)).foldl step s =
      ((allLines ls last).filterMap Line.key).foldl assign s := by
  have hline : ∀ (l : Line) (e : Eol) (s : S), l.WellFormed →
      step s (l.text value ++ e.cr) = ([l].filterMap Line.key).foldl assign s := by
    intro l e s hl
    cases l with
    | entry k comment => exact hentry s k comment e
    | other text => exact hother s text e hl
  -- over the terminated lines; the last one may lack its end
  induction ls generalizing s with
  | nil =>
    cases last with
    | none => rfl
    | some l =>
      have hl : l.WellFormed := hwf l (List.mem_singleton_self l)
      have hlf : LF ∉ l.text value := by simpa [Eol.cr] using lf_notMem_text hv hl .lf
      have hstep : step s (l.text value) = ([l].filterMap Line.key).foldl assign s := by
        simpa [Eol.cr] using hline l .lf s hl
      show (getlines (l.text value)).foldl step s = ([l].filterMap Line.key).foldl assign s
      by_cases hempty : l.text value = []
      · -- nothing is extracted from an empty unterminated line, and it is no entry
        rw [hempty]
        cases l with
        | entry k comment =>
          have htag : k.tag = [] := by
            cases comment with
            | none => exact (List.append_eq_nil_iff.mp hempty).1
            | some c =>
              exact (List.append_eq_nil_iff.mp (List.append_eq_nil_iff.mp hempty).1).1
          exact absurd htag (tag_ne_nil k)
        | other text => rfl
      · rw [getlines_last hlf hempty]
        exact hstep
  | cons p ls ih =>
    obtain ⟨l, e⟩ := p
    have hl : l.WellFormed := hwf l (List.mem_cons_self ..)
    have hrest : ∀ l' ∈ allLines ls last, l'.WellFormed :=
      fun l' hl' => hwf l' (List.mem_cons_of_mem l hl')
    have hkeys : (allLines ((l, e) :: ls) last).filterMap Line.key =
        [l].filterMap Line.key ++ (allLines ls last).filterMap Line.key := by
      show ([l] ++ allLines ls last).filterMap Line.key = _
      exact List.filterMap_append
    rw [fileText, getlines_append (lf_notMem_text hv hl e), List.foldl_cons, hline l e s hl,
      ih hrest, hkeys, List.foldl_append]

end Reader

instance : RightCommutative (assignConfig value) where
  right_comm g k k' := by cases k <;> cases k' <;> rfl

instance : RightCommutative (assignCredentials value) where
  right_comm c k k' := by cases k <;> cases k' <;> rfl

/-- **Both readers recover every configuration from its text.** Whatever the
order of the six entries, their comments, the line ends and the lines between
them, `file_config_read` returns the four values and the name made of two of
them, and `file_security_config_read` the two credentials. -/
theorem configReaders_recover (hv : ∀ k, Plain (value k)) (ls : List (Line × Eol))
    (last : Option Line) (hwf : ∀ l ∈ allLines ls last, l.WellFormed)
    (hkeys : ((allLines ls last).filterMap Line.key).Perm Key.all) (g : Config)
    (c : Credentials) :
    fileConfigRead (fileText value ls last) g =
        { domainName := value .domainName
          domainSubname := value .domainSubname
          domainFull :=
            if value .domainSubname ≠ [] then
              value .domainSubname ++ bytes "." ++ value .domainName
            else value .domainName
          checkIpUrlIpv4 := value .checkIpUrlIpv4
          checkIpUrlIpv6 := value .checkIpUrlIpv6 } ∧
      fileSecurityConfigRead (fileText value ls last) c =
        { securityKey := value .key, securityId := value .keyid } := by
  -- the order of the entries does not matter, as each sets a field of its own
  constructor
  · have hfold : (getlines (fileText value ls last)).foldl fileConfigReadLine g =
        Key.all.foldl (assignConfig value) g := by
      rw [foldl_readers hv (fileConfigReadLine_entry hv) ?_ ls last hwf, hkeys.foldl_eq]
      intro g text e hother
      rw [fileConfigReadLine_eq]
      simp only [not_tag_prefix_trimLine hother.2, if_false]
    simp only [fileConfigRead, hfold]
    split <;> simp_all [Key.all, assignConfig]
  · have hfold : (getlines (fileText value ls last)).foldl fileSecurityConfigReadLine c =
        Key.all.foldl (assignCredentials value) c := by
      rw [foldl_readers hv (fileSecurityConfigReadLine_entry hv) ?_ ls last hwf, hkeys.foldl_eq]
      intro c text e hother
      rw [fileSecurityConfigReadLine_eq]
      simp only [not_tag_prefix_trimLine hother.2, if_false]
    rw [fileSecurityConfigRead, hfold]
    rfl

/-- A file with the entries out of order, comments, both line ends and no end of
the last line. -/
theorem configReaders_recover_sample :
    let value : Key → Bytes := fun k => match k with
      | .key => bytes "k=1"
      | .keyid => bytes "AKID"
      | .domainName => bytes "example.com"
      | .domainSubname => bytes "home"
      | .checkIpUrlIpv4 => bytes "4.ip"
      | .checkIpUrlIpv6 => []
    let ls : List (Line × Eol) :=
      [(.entry .domainSubname none, .crlf), (.other [], .lf), (.entry .keyid none, .lf),
        (.other (bytes "# key=x"), .crlf), (.entry .checkIpUrlIpv6 (some (bytes "none;")), .crlf),
        (.entry .domainName (some []), .lf), (.entry .checkIpUrlIpv4 none, .lf)]
    let text := fileText value ls (some (.entry .key none))
    text = bytes "domain_subname=home\r\n\nkeyid=AKID\n# key=x\r\n" ++
          bytes "check_ip_url_ipv6=;none;\r\ndomain_name=example.com;\n" ++
          bytes "check_ip_url_ipv4=4.ip\nkey=k=1" ∧
      fileConfigRead text Config.empty =
        ⟨bytes "example.com", bytes "home", bytes "home.example.com", bytes "4.ip", []⟩ ∧
      fileSecurityConfigRead text ⟨[], []⟩ = ⟨bytes "k=1", bytes "AKID"⟩ := by
  intro value ls text
  refine ⟨by decide +kernel, ?_⟩
  have hv : ∀ k, Plain (value k) := fun k => by cases k <;> decide
  have hwf : ∀ l ∈ allLines ls (some (.entry .key none)), l.WellFormed := by
    intro l hl
    simp only [ls, allLines, List.map, Option.toList, List.cons_append, List.nil_append,
      List.mem_cons, List.not_mem_nil, or_false] at hl
    rcases hl with rfl | rfl | rfl | rfl | rfl | rfl | rfl | rfl
    · trivial
    · exact ⟨by decide, fun k => by cases k <;> decide⟩
    · trivial
    · exact ⟨by decide, fun k => by cases k <;> decide⟩
    · exact show LF ∉ bytes "none;" by decide
    · exact show LF ∉ ([] : Bytes) by decide
    · trivial
    · trivial
  have h := configReaders_recover hv ls (some (.entry .key none)) hwf (by decide) Config.empty
    ⟨[], []⟩
  exact h

end DdnsCloudTencent.ConfigFile
