import Checkup.Proofs.Pattern.Name
import Checkup.Proofs.Pattern.Search
import Checkup.Proofs.Text.Bracket
import Checkup.Rule.Composition

/-!
# The start of a function component

Where a line starts with `function` and the name of a component, in front of an opening parenthesis, there is one way to
read it as a declaration (`FunctionHead.find`). What is read as its parameters ends with the parenthesis that closes
them, if that stands on the line (`FunctionHead.afterParameters_closed`), and with the name otherwise
(`FunctionHead.afterParameters_open`).
-/

namespace Checkup

open Pattern Text

variable {name head pre w post t u v : Text} {g g' : Marks} {m : Match}

/-! ## Words in front of the keyword -/

/-- Whether the text may stand in front of the keyword of a declaration: `export`, maybe with `default` behind it. -/
def IsExport (t : Text) : Prop :=
  ∃ exported defaulted, t = exported ++ defaulted ∧ IsModifier "export".toList exported ∧
    IsModifier "default".toList defaulted ∧ (exported = [] → defaulted = [])

theorem export_takes_iff :
    (opt (lit "export" ++ gap ++ opt (lit "default" ++ gap))).Takes pre w post g g' ↔ IsExport w ∧ g' = g := by
  constructor
  · rintro (⟨u, v, _, rfl, hexport, hdefault⟩ | ⟨rfl, rfl⟩)
    · obtain ⟨hdefaulted, rfl⟩ := modifier_takes_iff.mp hdefault
      obtain ⟨hexported, rfl⟩ := modifier_takes_iff.mp (Or.inl hexport)
      refine ⟨⟨u, v, rfl, hexported, hdefaulted, ?_⟩, rfl⟩
      rintro rfl
      obtain ⟨_, _, _, hempty, hword, _⟩ := hexport
      rw [literal_takes hword] at hempty
      cases hempty
    · exact ⟨⟨[], [], rfl, Or.inl rfl, Or.inl rfl, fun _ => rfl⟩, rfl⟩
  · rintro ⟨⟨exported, defaulted, rfl, rfl | ⟨space, rfl, hspace⟩, hdefaulted, hempty⟩, rfl⟩
    · exact Or.inr ⟨hempty rfl, rfl⟩
    · exact Or.inl ⟨_, _, _, rfl, ⟨_, _, _, rfl, takes_literal _ _ _ _, gap_takes_iff.mpr ⟨hspace, rfl⟩⟩,
        modifier_takes_iff.mpr ⟨hdefaulted, rfl⟩⟩

theorem IsExport.mem_head {x : Char} (ht : IsExport t) (hx : x ∈ (t ++ u).head?) : x = 'e' ∨ x = 'd' ∨ x ∈ u.head? := by
  obtain ⟨exported, defaulted, rfl, hexported, hdefaulted, _⟩ := ht
  rw [List.append_assoc] at hx
  exact (hexported.head hx).imp_right hdefaulted.head

/-- There is one way to read the words in front of a keyword that starts with a letter of its own. -/
theorem IsExport.append_inj {x y : Char} (hs : IsExport u) (ht : IsExport v) (hx : x ∈ ['c', 'f']) (hy : y ∈ ['c', 'f'])
    (h : u ++ x :: w = v ++ y :: t) : u = v ∧ x :: w = y :: t := by
  obtain ⟨exported, defaulted, rfl, hexported, hdefaulted, _⟩ := hs
  obtain ⟨exported', defaulted', rfl, hexported', hdefaulted', _⟩ := ht
  have hletter : ∀ z ∈ ['c', 'f'], z ≠ 'd' ∧ z ≠ 'e' ∧ z.isBlank = false := by decide
  have hfirst {z : Char} (hz : z ∈ ['c', 'f']) (r : Text) : ∀ x ∈ (z :: r).head?, x ≠ 'd' ∧ x.isBlank = false := by
    intro x hx
    cases hx
    exact ⟨(hletter z hz).1, (hletter z hz).2.2⟩
  have hfirst' {z : Char} {d : Text} (hz : z ∈ ['c', 'f']) (r : Text) (hd : IsModifier "default".toList d) :
      ∀ x ∈ (d ++ z :: r).head?, x ≠ 'e' ∧ x.isBlank = false := by
    intro x hx
    rcases hd.head hx with rfl | hx
    · decide
    · cases hx
      exact (hletter z hz).2
  rw [List.append_assoc, List.append_assoc] at h
  obtain ⟨rfl, hbehind⟩ := hexported.append_inj hexported' (hfirst' hx _ hdefaulted) (hfirst' hy _ hdefaulted') h
  obtain ⟨rfl, hkeywords⟩ := hdefaulted.append_inj hdefaulted' (hfirst hx _) (hfirst hy _) hbehind
  exact ⟨rfl, hkeywords⟩

/-- Nor is there another way to read the blanks in front of these words. -/
theorem append_inj_of_isExport {margin margin' k k' : Text} (hmargin : ∀ x ∈ margin, x.isBlank = true)
    (hmargin' : ∀ x ∈ margin', x.isBlank = true) (hs : IsExport u) (ht : IsExport v)
    (h : margin ++ (u ++ k) = margin' ++ (v ++ k')) (hk : ∃ x ∈ ['c', 'f'], ∃ w, k = x :: w)
    (hk' : ∃ x ∈ ['c', 'f'], ∃ w, k' = x :: w) : margin = margin' ∧ u = v ∧ k = k' := by
  obtain ⟨x, hx, w, rfl⟩ := hk
  obtain ⟨y, hy, w', rfl⟩ := hk'
  have hletter : ∀ z ∈ ['c', 'f'], z.isBlank = false := by decide
  have hfirst {words r : Text} {z : Char} (hwords : IsExport words) (hz : z ∈ ['c', 'f']) :
      ∀ x ∈ (words ++ z :: r).head?, x.isBlank = false := by
    intro x hx
    rcases hwords.mem_head hx with rfl | rfl | hx
    · decide
    · decide
    · cases hx
      exact hletter z hz
  obtain ⟨rfl, hbehind⟩ := append_inj_of_class hmargin hmargin' (hfirst hs hx) (hfirst ht hy) h
  exact ⟨rfl, hs.append_inj ht hx hy hbehind⟩

/-! ## The declaration -/

/-- The start of a function that is a component. -/
def functionStart : Pattern :=
  seqAll [lit "function", gap, group 1 capitalName, blanks, one fun c => c == '(' || c == '<']

/-- The start of any other component has a keyword of its own. -/
theorem exists_constantStart : ∃ typed, componentDeclaration =
    seqAll [textStart, blanks, opt (lit "export" ++ gap ++ opt (lit "default" ++ gap)),
      alt functionStart (seq (lit "const") typed)] := ⟨_, rfl⟩

/-- A line up to the name of the function component that it declares. -/
structure FunctionHead (name head : Text) : Prop where
  named : IsCapitalName name
  written : ∃ margin words space, head = margin ++ (words ++ ("function".toList ++ (space ++ name))) ∧
    (∀ x ∈ margin, x.isBlank = true) ∧ IsExport words ∧ space ≠ [] ∧ ∀ x ∈ space, x.isBlank = true

/-- Where the name stands in what is taken of a function. -/
theorem functionStart_takes (h : functionStart.Takes pre w post [] g) :
    ∃ space name' x more, w = "function".toList ++ (space ++ (name' ++ x :: more)) ∧ (∀ x ∈ space, x.isBlank = true) ∧
      IsCapitalName name' ∧ x.isName = false ∧
      (captures g).lookup 1 = some ⟨byteSize (pre ++ ("function".toList ++ space)), name'⟩ := by
  obtain ⟨word, _, _, rfl, hword, space, _, _, rfl, hspace, name', _, _, rfl, ⟨_, hname, rfl⟩, more, _, _, rfl, hmore,
    ⟨x, rfl, hx⟩, rfl⟩ := h
  obtain rfl := groupless_takes rfl hword
  obtain rfl := literal_takes hword
  obtain ⟨⟨_, hblank⟩, rfl⟩ := gap_takes_iff.mp hspace
  obtain ⟨hcapital, rfl⟩ := capitalName_takes_iff.mp hname
  obtain ⟨hmore, rfl⟩ := hmore
  have hlookup (front post : Text) :
      (captures [(1, Cursor.behind front (name' ++ post), Cursor.behind (front ++ name') post)]).lookup 1 =
        some ⟨byteSize front, name'⟩ := congrArg some (Capture.between_behind front name' post)
  rw [List.append_assoc]
  cases more with
  | nil =>
    refine ⟨space, name', x, [], rfl, hblank, hcapital, ?_, hlookup _ _⟩
    rw [Bool.or_eq_true, beq_iff_eq, beq_iff_eq] at hx
    rcases hx with rfl | rfl <;> decide
  | cons z more =>
    refine ⟨space, name', z, more ++ [x], rfl, hblank, hcapital, ?_, hlookup _ _⟩
    exact Bool.eq_false_iff.mpr fun hz => by simp [not_isBlank_of_isName hz] at hmore

namespace FunctionHead

/-- There is no brace in it. -/
theorem ne_brace (h : FunctionHead name head) : ∀ x ∈ head, x ≠ '\x7b' ∧ x ≠ '\x7d' := by
  obtain ⟨hname, margin, words, space, rfl, hmargin, ⟨exported, defaulted, rfl, hexported, hdefaulted, _⟩, _,
    hspace⟩ := h
  have hclass {p : Char → Bool} (hopener : p '\x7b' = false) (hcloser : p '\x7d' = false) {x : Char} (hx : p x = true) :
      x ≠ '\x7b' ∧ x ≠ '\x7d' :=
    ⟨beq_eq_false_iff_ne.mp (beq_of_class hopener hx), beq_eq_false_iff_ne.mp (beq_of_class hcloser hx)⟩
  have hblank {x : Char} (hx : x.isBlank = true) : x ≠ '\x7b' ∧ x ≠ '\x7d' := hclass (by decide) (by decide) hx
  have hexport : ∀ x ∈ "export".toList, x ≠ '\x7b' ∧ x ≠ '\x7d' := by decide
  have hdefault : ∀ x ∈ "default".toList, x ≠ '\x7b' ∧ x ≠ '\x7d' := by decide
  simp only [List.forall_mem_append]
  exact ⟨fun x hx => hblank (hmargin x hx),
    ⟨fun x hx => (hexported.mem hx).elim (hexport x) hblank,
      fun x hx => (hdefaulted.mem hx).elim (hdefault x) hblank⟩,
    by decide, fun x hx => hblank (hspace x hx),
    fun x hx => hclass (by decide +kernel) (by decide +kernel) (hname.isName x hx)⟩

/-- The pattern takes the line up to the parenthesis. -/
theorem takes (h : FunctionHead name head) (post : Text) :
    ∃ g, componentDeclaration.Takes [] (head ++ ['(']) post [] g := by
  obtain ⟨hname, margin, words, space, rfl, hmargin, hwords, hspace⟩ := h
  obtain ⟨typed, hpattern⟩ := exists_constantStart
  have htext : margin ++ (words ++ ("function".toList ++ (space ++ name))) ++ ['('] =
      [] ++ (margin ++ (words ++ ("function".toList ++ (space ++ (name ++ ([] ++ ['('])))))) := by simp
  rw [hpattern, htext]
  exact ⟨_, [], _, _, rfl, ⟨rfl, rfl, rfl⟩, margin, _, _, rfl, ⟨hmargin, rfl⟩, words, _, _, rfl,
    export_takes_iff.mpr ⟨hwords, rfl⟩, Or.inl ⟨_, _, _, rfl, takes_literal _ _ _ _, space, _, _, rfl,
      gap_takes_iff.mpr ⟨hspace, rfl⟩, name, _, _, rfl, ⟨_, capitalName_takes_iff.mpr ⟨hname, rfl⟩, rfl⟩, [], _, _, rfl,
      ⟨List.forall_mem_nil _, rfl⟩, ⟨'(', rfl, rfl⟩, rfl⟩⟩

/-- It names what the line does. -/
theorem lookup_captures (h : FunctionHead name head) (htakes : componentDeclaration.Takes pre w post [] g)
    (htext : head ++ '(' :: t = pre ++ (w ++ post)) :
    ∃ func, (captures g).lookup 1 = some func ∧ func.text = name ∧ func.stop = byteSize head := by
  obtain ⟨hname, margin, words, space, rfl, hmargin, hwords, _, hspace⟩ := h
  obtain ⟨typed, hpattern⟩ := exists_constantStart
  rw [hpattern] at htakes
  obtain ⟨_, _, _, rfl, ⟨rfl, rfl, rfl⟩, margin', _, _, rfl, ⟨hmargin', rfl⟩, words', keyword, _, rfl, hwords',
    hkeyword⟩ := htakes
  obtain ⟨hexport, rfl⟩ := export_takes_iff.mp hwords'
  have htext' : margin' ++ (words' ++ (keyword ++ post)) =
      margin ++ (words ++ ("function".toList ++ (space ++ (name ++ '(' :: t)))) := by
    simpa using htext.symm
  rcases hkeyword with hfunction | hconstant
  · obtain ⟨space', name', x, more, rfl, hspace', hname', hx, hlookup⟩ := functionStart_takes hfunction
    obtain ⟨rfl, rfl, hbehind⟩ := append_inj_of_isExport hmargin' hmargin hexport hwords htext'
      ⟨'f', by decide, _, rfl⟩ ⟨'f', by decide, _, rfl⟩
    have hfirst {name r : Text} (hname : IsCapitalName name) : ∀ x ∈ (name ++ r).head?, x.isBlank = false := by
      obtain ⟨x, rest, rfl, _⟩ := id hname
      intro y hy
      cases hy
      exact not_isBlank_of_isName (hname.isName _ List.mem_cons_self)
    have hother {x : Char} {r : Text} (hx : x.isName = false) : ∀ y ∈ (x :: r).head?, y.isName = false := fun y hy => by
      cases hy
      exact hx
    simp only [List.append_assoc, List.append_cancel_left_eq, List.cons_append] at hbehind
    obtain ⟨rfl, hnames⟩ := append_inj_of_class hspace' hspace (hfirst hname') (hfirst hname) hbehind
    obtain ⟨rfl, _⟩ := append_inj_of_class hname'.isName hname.isName (hother hx) (hother (by decide)) hnames
    exact ⟨_, hlookup, rfl, by simp only [Capture.stop, byteSize_append, byteSize_nil, Nat.zero_add, Nat.add_assoc]⟩
  · obtain ⟨word, typed, _, rfl, hword, _⟩ := hconstant
    obtain rfl := literal_takes hword
    obtain ⟨_, _, hbehind⟩ := append_inj_of_isExport hmargin' hmargin hexport hwords htext'
      ⟨'c', by decide, _, rfl⟩ ⟨'f', by decide, _, rfl⟩
    cases (List.cons.inj hbehind).1

/-- **The line declares the function**, whatever follows the parenthesis. -/
theorem find (h : FunctionHead name head) (t : Text) :
    ∃ m func, componentDeclaration.find (head ++ '(' :: t) = some m ∧ m.group? 1 = some func ∧ func.text = name ∧
      func.stop = byteSize head := by
  obtain ⟨g, htakes⟩ := h.takes t
  have hsome := isSome_find htakes
  rw [List.append_assoc, List.singleton_append] at hsome
  obtain ⟨m, hm⟩ := Option.isSome_iff_exists.mp hsome
  obtain ⟨pre, w, post, g, hof⟩ := find_of hm
  obtain ⟨func, hfunc, hname⟩ := h.lookup_captures hof.takes hof.text_eq
  exact ⟨m, func, hm, by rw [hof.eq]; exact hfunc, hname⟩

/-- The parameters end with the parenthesis that closes them. -/
theorem afterParameters_closed {params : Text} {func : Capture} (hparams : Balanced '(' ')' params)
    (hfunc : m.group? 1 = some func) (hstop : func.stop = byteSize head) (rest : Text) :
    afterParameters (head ++ '(' :: (params ++ ')' :: rest)) m = byteSize (head ++ '(' :: (params ++ [')'])) := by
  have hend := (blockEnd_eq_some_iff (show closer? '(' = some ')' from rfl) head (params ++ ')' :: rest)).mpr
    ⟨params, rest, rfl, hparams, rfl⟩
  have hsize : byteSize (head ++ '(' :: (params ++ [')'])) = byteSize (head ++ '(' :: params) + 1 := by
    rw [← List.cons_append, ← List.append_assoc, byteSize_append]
    rfl
  simp only [afterParameters, hfunc, hstop, findAfter_append, Option.bind_eq_bind, Option.bind_some, hend,
    Option.map_some, Option.getD_some, hsize]

/-- If they go on behind the line, none of them are read. -/
theorem afterParameters_open {first more : Text} {func : Capture} (hparams : Balanced '(' ')' (first ++ more))
    (hfunc : m.group? 1 = some func) (hstop : func.stop = byteSize head) :
    afterParameters (head ++ '(' :: first) m = byteSize head := by
  have hend := blockEnd_eq_none (show closer? '(' = some ')' from rfl) hparams head
  simp only [afterParameters, hfunc, hstop, findAfter_append, Option.bind_eq_bind, Option.bind_some, hend,
    Option.map_none, Option.getD_none]

end FunctionHead

end Checkup
