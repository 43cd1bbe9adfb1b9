/-
  RubySyntax.Proofs.Tree.Capture
  ──────────────────────────────
  **WHICH GROUPS OF A REGULAR EXPRESSION ARE NAMED.**

  A named group opens with `(?<name>`.  The names are looked for in the text between the slashes, in
  which every backslash still stands.  A parenthesis behind an odd number of backslashes is a
  character to be matched and opens nothing, but the search does not look at what stands before a
  parenthesis:

      /(?<a>x)/      names  a
      /\(?<a>x/      names  a  as well

  So the names that are found are those of all openers, escaped ones included.  Where no opener is
  escaped they are the names of the groups.

  Main results:
    • `captureName?_eq_some` — what an opener is,
    • `captures_eraseDups` — the first of equal names come in the order of their first openers,
    • `captures_namedCaptures` — the names of a regular expression without interpolations.
-/
import RubySyntax.Proofs.Tree.Look

namespace RubySyntax.Node

open Text

/-! ## §1. Openers. -/

/-- A character of the name of a group. -/
def isGroupChar (c : Char) : Bool := isAlphanumeric c || c == '_'

/-- At a place of a text a group with a name opens. -/
def OpensAt (text : List Char) (name : String) (place : Nat) : Prop :=
  name ≠ "" ∧ (∀ c ∈ name.toList, isGroupChar c = true) ∧
    "(?<".toList ++ name.toList ++ ['>'] <+: text.drop place

/-- An odd number of backslashes stands right before a place of a text. -/
def EscapedAt (text : List Char) (place : Nat) : Prop :=
  ((text.take place).reverse.takeWhile (· == '\\')).length % 2 = 1

/-- What is longest of some characters is found whole before any other one. -/
theorem takeWhile_append_cons {p : Char → Bool} {name : List Char} {c : Char}
    (hname : ∀ d ∈ name, p d = true) (hc : p c = false) (rest : List Char) :
    (name ++ c :: rest).takeWhile p = name := by
  rw [List.takeWhile_append_of_pos hname, List.takeWhile_cons_of_neg (ne_true_of_eq_false hc),
    List.append_nil]

theorem captureName?_opening (rest : List Char) :
    captureName? ('(' :: '?' :: '<' :: rest) =
      if !(rest.takeWhile isGroupChar).isEmpty &&
          (rest.drop (rest.takeWhile isGroupChar).length).head? == some '>' then
        some (String.ofList (rest.takeWhile isGroupChar))
      else none := rfl

/-- **What an opener is**: the search finds a name at the beginning of a text where a group with that
name opens. -/
theorem captureName?_eq_some {text : List Char} {name : String} :
    captureName? text = some name ↔ OpensAt text name 0 := by
  have hname : name ≠ "" ↔ name.toList ≠ [] := not_congr String.toList_eq_nil_iff.symm
  rw [OpensAt, hname, List.drop_zero]
  constructor
  · intro h
    have hopening : ∃ rest, text = '(' :: '?' :: '<' :: rest := by
      unfold captureName? at h
      split at h
      next rest => exact ⟨rest, rfl⟩
      next => cases h
    obtain ⟨rest, rfl⟩ := hopening
    rw [captureName?_opening] at h
    split at h
    next hclosed =>
      cases h
      rw [Bool.and_eq_true, Bool.not_eq_true', List.isEmpty_eq_false_iff, beq_iff_eq,
        List.head?_eq_some_iff] at hclosed
      obtain ⟨hne, after, hafter⟩ := hclosed
      have hrest : rest.takeWhile isGroupChar ++ '>' :: after = rest := by
        rw [← hafter]
        exact List.prefix_iff_eq_append.mp (List.takeWhile_prefix isGroupChar)
      rw [String.toList_ofList]
      refine ⟨hne, List.all_eq_true.mp List.all_takeWhile, after, ?_⟩
      show '(' :: '?' :: '<' :: (rest.takeWhile isGroupChar ++ ['>'] ++ after) = _
      rw [List.append_assoc, List.singleton_append, hrest]
    next => cases h
  · rintro ⟨hne, hchars, after, rfl⟩
    have htake : (name.toList ++ '>' :: after).takeWhile isGroupChar = name.toList :=
      takeWhile_append_cons hchars rfl after
    have htext : "(?<".toList ++ name.toList ++ ['>'] ++ after =
        '(' :: '?' :: '<' :: (name.toList ++ '>' :: after) := by simp
    rw [htext, captureName?_opening, htake, List.drop_left, if_pos, String.ofList_toList]
    simpa using hne

theorem captureName?_drop {text : List Char} {name : String} {place : Nat} :
    captureName? (text.drop place) = some name ↔ OpensAt text name place :=
  captureName?_eq_some

/-- An opener stands inside the text. -/
theorem OpensAt.lt_length {text : List Char} {name : String} {place : Nat}
    (h : OpensAt text name place) : place < text.length := by
  by_contra hge
  obtain ⟨-, -, hprefix⟩ := h
  rw [List.drop_eq_nil_of_le (Nat.le_of_not_lt hge)] at hprefix
  cases List.prefix_nil.mp hprefix

/-- All openers are found, each at its place. -/
theorem captureNames_eq (text : List Char) :
    captureNames text =
      (List.range text.length).filterMap fun place => captureName? (text.drop place) := by
  induction text with
  | nil => rfl
  | cons c rest ih =>
      rw [List.length_cons, List.range_succ_eq_map, List.filterMap_cons, List.filterMap_map,
        captureNames, ih, List.drop_zero]
      cases captureName? (c :: rest) <;> rfl

/-! ## §2. Names in the order of their openers. -/

/-- Some names are those that open somewhere, each once, in the order in which they open first. -/
structure Captures (opens : String → Nat → Prop) (names : List String) : Prop where
  nodup : names.Nodup
  mem_iff : ∀ name, name ∈ names ↔ ∃ place, opens name place
  ordered : names.Pairwise fun a b => ∃ place, opens a place ∧ ∀ later, opens b later → place < later

theorem Captures.congr {opens opens' : String → Nat → Prop} {names : List String}
    (h : Captures opens names) (hopens : ∀ name place, opens name place ↔ opens' name place) :
    Captures opens' names := by
  obtain rfl : opens = opens' := by
    funext name place
    exact propext (hopens name place)
  exact h

/-- What is found at a place if one name is passed over. -/
def findOther (find : Nat → Option String) (name : String) (place : Nat) : Option String :=
  (find place).filter fun other => !other == name

section FindOther

variable {find : Nat → Option String} {name other : String} {place : Nat} {places : List Nat}

theorem findOther_eq_some :
    findOther find name place = some other ↔ find place = some other ∧ other ≠ name := by
  rw [findOther, Option.filter_eq_some_iff, Bool.not_eq_true', beq_eq_false_iff_ne]

theorem filter_filterMap_find : (places.filterMap find).filter (fun other => !other == name) =
    places.filterMap (findOther find name) :=
  List.filter_filterMap

/-- Another name than the one at the first place is found at a later one. -/
theorem mem_of_find_ne {p : Nat} (hfind : find place = some name) (hne : other ≠ name)
    (hmem : p ∈ place :: places) (hother : find p = some other) : p ∈ places := by
  rcases List.mem_cons.mp hmem with rfl | hmem
  · exact absurd (Option.some.inj (hother.symm.trans hfind)) hne
  · exact hmem

end FindOther

/-- Of two names that are found in some places in order, the one that is kept first was found before
any of the other. -/
theorem pairwise_eraseDups {places : List Nat} (hsorted : places.Pairwise (· < ·))
    (find : Nat → Option String) :
    (places.filterMap find).eraseDups.Pairwise fun a b =>
      ∃ place ∈ places, find place = some a ∧
        ∀ later ∈ places, find later = some b → place < later := by
  induction places generalizing find with
  | nil => exact List.Pairwise.nil
  | cons place places ih =>
      obtain ⟨hfirst, hsorted⟩ := List.pairwise_cons.mp hsorted
      cases hfind : find place with
      | none =>
          rw [List.filterMap_cons_none hfind]
          refine (ih hsorted find).imp fun ⟨p, hp, ha, hlater⟩ => ?_
          refine ⟨p, List.mem_cons_of_mem _ hp, ha, fun later hmem hb => ?_⟩
          rcases List.mem_cons.mp hmem with rfl | hmem
          · rw [hfind] at hb
            cases hb
          · exact hlater later hmem hb
      | some name =>
          -- the other names are those that are found when this one is passed over
          rw [List.filterMap_cons_some hfind, List.eraseDups_cons, filter_filterMap_find]
          have hne : ∀ other ∈ (places.filterMap (findOther find name)).eraseDups, other ≠ name := by
            intro other hmem
            obtain ⟨p, -, hp⟩ := List.mem_filterMap.mp (List.mem_eraseDups.mp hmem)
            exact (findOther_eq_some.mp hp).2
          refine List.pairwise_cons.mpr ⟨fun other hmem => ?_, ?_⟩
          · exact ⟨place, List.mem_cons_self, hfind, fun later hin hother =>
              hfirst later (mem_of_find_ne hfind (hne other hmem) hin hother)⟩
          · refine (ih hsorted (findOther find name)).imp_of_mem
              fun {a b} _ hb ⟨p, hp, ha, hbefore⟩ => ?_
            refine ⟨p, List.mem_cons_of_mem _ hp, (findOther_eq_some.mp ha).1,
              fun later hin hother => hbefore later ?_ ?_⟩
            · exact mem_of_find_ne hfind (hne b hb) hin hother
            · exact findOther_eq_some.mpr ⟨hother, hne b hb⟩

/-- **The first of equal names come in the order of their first openers.** -/
theorem captures_eraseDups (text : List Char) :
    Captures (OpensAt text) (captureNames text).eraseDups := by
  have hordered : (captureNames text).eraseDups.Pairwise fun a b =>
      ∃ place, OpensAt text a place ∧ ∀ later, OpensAt text b later → place < later := by
    rw [captureNames_eq]
    refine (pairwise_eraseDups List.pairwise_lt_range _).imp fun ⟨place, _, ha, hlater⟩ => ?_
    exact ⟨place, captureName?_drop.mp ha, fun later hb =>
      hlater later (List.mem_range.mpr hb.lt_length) (captureName?_drop.mpr hb)⟩
  refine ⟨hordered.imp ?_, fun name => ?_, hordered⟩
  · rintro a b ⟨place, ha, hlater⟩ rfl
    exact Nat.lt_irrefl _ (hlater place ha)
  · rw [List.mem_eraseDups, captureNames_eq, List.mem_filterMap]
    constructor
    · rintro ⟨place, -, hname⟩
      exact ⟨place, captureName?_drop.mp hname⟩
    · rintro ⟨place, hname⟩
      exact ⟨place, List.mem_range.mpr hname.lt_length, captureName?_drop.mpr hname⟩

/-! ## §3. Regular expressions. -/

/-- **The names of a regular expression without interpolations** are those of the openers in its
text, escaped or not, each once, in the order in which they stand there first.  Where no opener is
escaped these are the names of the groups. -/
theorem captures_namedCaptures (opening closing flags : Token) (contents : List Token) :
    let text := (String.join (contents.map (·.value))).toList
    let names := (regexp opening (contents.map .plain) closing flags).namedCaptures
    Captures (OpensAt text) names ∧
      ((∀ name place, OpensAt text name place → ¬EscapedAt text place) →
        Captures (fun name place => OpensAt text name place ∧ ¬EscapedAt text place) names) := by
  intro text names
  have hnames : names = (captureNames text).eraseDups := by
    rw [show names = _ from namedCaptures_regexp .., plainText?_plain]
    rfl
  rw [hnames]
  refine ⟨captures_eraseDups text, fun hplain => (captures_eraseDups text).congr fun name place => ?_⟩
  exact ⟨fun hopens => ⟨hopens, hplain name place hopens⟩, And.left⟩

/-- A parenthesis that is escaped names a group all the same. -/
example : captureNames "\\(?<a>b".toList = ["a"] ∧
    (("\\(?<a>b".toList.take 1).reverse.takeWhile (· == '\\')).length % 2 = 1 := by
  decide +kernel

end RubySyntax.Node
