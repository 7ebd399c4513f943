import Checkup.Proofs.Text.Occurrence
import Checkup.Proofs.Text.Piece
import Checkup.Tool.Linter

/-!
# Paths below the root of a scan

The linter names files as it sees them, and `relativePath` takes the root off the front of such a name: not component by
component, but as a text. What becomes of a name depends on how it stands to the text of the root, which is the root
without the slashes at its end.

* `relativePath_of_append`, `relativePath_of_unrooted`: the name starts with the text of the root, or it does not.
* `IsNormal.exists_cons`: how a path whose components are all names goes on behind nothing and behind dots.
* `rootText_eq_nil`: the text of an absolute root is not in front of a path that is not absolute, unless it is empty.
* `exists_behind_root`: a path that starts with the text of the root and is not below it goes on with a longer name of
  the last component.
* `relativePath_normal`: paths below the root `.`, and below and beside an absolute root.
-/

namespace Checkup

namespace Path

variable {root p f t w : Text}

/-! ## Paths and their components -/

/-- The path with slashes as separators. -/
def slashed (p : Text) : Text := p.map fun c => if c = '\\' then '/' else c

/-- Whether no component of the path is empty or stands for this directory or the one above. -/
def IsNormal (p : Text) : Prop := ∀ c ∈ Text.split (· == '/') (slashed p), c ∉ [[], ['.'], ['.', '.']]

instance (p : Text) : Decidable (IsNormal p) := inferInstanceAs (Decidable (∀ _ ∈ _, _))

/-- The names between the slashes, without empty ones and those that stand for the directory itself. -/
def names (t : Text) : List Text := (Text.split (· == '/') t).filter fun c => c ∉ [[], ['.']]

/-- The components of a path that lead somewhere. -/
def components (p : Text) : List Text := names (slashed p)

/-- The letter of a disk and its colon, if the path starts with one. -/
def drive : Text → Text
  | letter :: ':' :: _ => if letter.isAlpha then [letter, ':'] else []
  | _ => []

/-- Whether the path starts at the top of the disk, or of the disk that it names. -/
def IsAbsolute (p : Text) : Prop := drive p ++ ['/'] <+: slashed p

instance (p : Text) : Decidable (IsAbsolute p) := inferInstanceAs (Decidable (_ <+: _))

/-- The text that is taken off: the root without the slashes at its end. -/
def rootText (root : Text) : Text := Text.trimEndBy (· == '/') (slashed root)

theorem slashed_append (p q : Text) : slashed (p ++ q) = slashed p ++ slashed q := List.map_append

theorem exists_slashed_eq (root : Text) : ∃ k, slashed root = rootText root ++ List.replicate k '/' := by
  obtain ⟨w, hw, h⟩ := Text.exists_trimEndBy (· == '/') (slashed root)
  refine ⟨w.length, ?_⟩
  rw [rootText, ← List.eq_replicate_of_mem fun x hx => eq_of_beq (hw x hx)]
  exact h

/-- A path with normal components goes on behind nothing, a dot or two dots, and not with a slash. -/
theorem IsNormal.exists_cons (h : IsNormal p) (lead : Text) {rest : Text} (hlead : lead ∈ [[], ['.'], ['.', '.']])
    (hp : slashed p = lead ++ rest) : ∃ c t, rest = c :: t ∧ c ≠ '/' := by
  have hleads : ∀ l ∈ [[], ['.'], ['.', '.']], ∀ x ∈ l, (x == '/') = false := by decide
  have hplain : ∀ x ∈ lead, (x == '/') = false := hleads lead hlead
  have hpiece (hrest : ∀ x ∈ rest.head?, (x == '/') = true) : False :=
    h lead (Text.mem_split.mpr ⟨[], rest, by simpa using hp, hplain, by simp, hrest⟩) hlead
  cases rest with
  | nil => exact (hpiece (by simp)).elim
  | cons c t => exact ⟨c, t, rfl, fun hc => hpiece (by simp [hc])⟩

/-! ## The names of paths -/

theorem names_append_cons (a b : Text) : names (a ++ '/' :: b) = names a ++ names b := by
  rw [names, Text.split, Text.splitFrom_append_cons rfl, List.filter_append]
  rfl

theorem names_append_replicate (t : Text) (k : Nat) : names (t ++ List.replicate k '/') = names t := by
  induction k generalizing t with
  | zero => rw [List.replicate_zero, List.append_nil]
  | succ k ih =>
    have hnone : names (List.replicate k '/') = [] := ih []
    rw [List.replicate_succ, names_append_cons, hnone, List.append_nil]

theorem components_eq (root : Text) : components root = names (rootText root) := by
  obtain ⟨k, hk⟩ := exists_slashed_eq root
  rw [components, hk, names_append_replicate]

/-- A path that starts with the text of the root and is not below it goes on with a longer name of the last
component. -/
theorem exists_behind_root (h : ¬ components root <+: components f) (hf : slashed f = rootText root ++ w) :
    rootText root ≠ [] ∧ ∃ c t, w = c :: t ∧ c ≠ '/' := by
  rw [components_eq] at h
  refine ⟨fun hnil => h (hnil ▸ List.nil_prefix), ?_⟩
  cases w with
  | nil =>
    rw [components, hf, List.append_nil] at h
    exact absurd List.prefix_rfl h
  | cons c t =>
    refine ⟨c, t, rfl, ?_⟩
    rintro rfl
    exact h ⟨names t, by rw [components, hf, names_append_cons]⟩

/-! ## Absolute roots -/

/-- The name of a disk, if there is one, is a letter and a colon. -/
theorem drive_cases (p : Text) : drive p = [] ∨ ∃ letter : Char, letter.isAlpha = true ∧ drive p = [letter, ':'] ∧
    ∃ rest, p = letter :: ':' :: rest := by
  unfold drive
  split
  · rename_i letter rest
    split
    · rename_i hletter
      exact Or.inr ⟨letter, hletter, rfl, rest, rfl⟩
    · exact Or.inl rfl
  · exact Or.inl rfl

theorem slash_not_mem_drive (p : Text) : '/' ∉ drive p := by
  rcases drive_cases p with hdrive | ⟨letter, hletter, hdrive, _⟩
  · rw [hdrive]
    exact List.not_mem_nil
  · rw [hdrive]
    intro hmem
    simp only [List.mem_cons, List.not_mem_nil, or_false] at hmem
    rcases hmem with rfl | hcolon
    · cases hletter
    · cases hcolon

/-- The text of an absolute root is the disk that it names, and if there is more, a slash follows. -/
theorem rootText_eq_drive_or (h : IsAbsolute root) :
    rootText root = drive root ∨ drive root ++ ['/'] <+: rootText root := by
  obtain ⟨k, hk⟩ := exists_slashed_eq root
  obtain ⟨r, hr⟩ := h
  rw [hk, List.append_assoc] at hr
  rcases List.append_eq_append_iff.mp hr with ⟨v, htext, hv⟩ | ⟨v, htext, hv⟩
  · cases v with
    | nil => exact Or.inl (by rw [htext, List.append_nil])
    | cons c v =>
      obtain ⟨rfl, -⟩ := List.cons.inj hv
      exact Or.inr ⟨v, by rw [htext, List.append_assoc]; rfl⟩
  · cases v with
    | nil => exact Or.inl (by rw [htext, List.append_nil])
    | cons c v =>
      have hc : c ∈ List.replicate k '/' := by rw [hv]; exact List.mem_cons_self
      refine absurd ?_ (slash_not_mem_drive root)
      rw [htext, ← List.eq_of_mem_replicate hc]
      simp

/-- In front of a text without its disk and without a slash, the text of an absolute root can only be empty. -/
theorem rootText_eq_nil (h : IsAbsolute root) (hdrive : drive root ≠ [] → ¬ drive root <+: t)
    (hslash : t.head? ≠ some '/') (ht : rootText root <+: t) : rootText root = [] := by
  have hprefix : drive root <+: t := by
    rcases rootText_eq_drive_or h with htext | htext
    · exact htext ▸ ht
    · exact ((List.prefix_append _ _).trans htext).trans ht
  have hnone : drive root = [] := by
    by_contra hne
    exact hdrive hne hprefix
  rcases rootText_eq_drive_or h with htext | htext
  · rw [htext, hnone]
  · obtain ⟨r, hr⟩ := htext.trans ht
    rw [hnone, List.nil_append, List.singleton_append] at hr
    exact absurd (hr ▸ rfl) hslash

/-- A path that names no disk starts with none once its separators are slashes. -/
theorem not_drive_prefix_slashed (hroot : drive root ≠ []) (hp : drive p = []) : ¬ drive root <+: slashed p := by
  intro hprefix
  obtain ⟨letter, hletter, hdrive, _⟩ := (drive_cases root).resolve_left hroot
  have hback {a c : Char} (hc : c ≠ '/') (ha : c = if a = '\\' then '/' else a) : a = c := by
    split at ha
    · exact absurd ha hc
    · exact ha.symm
  have hne : letter ≠ '/' := by
    rintro rfl
    cases hletter
  obtain ⟨r, hr⟩ := hdrive ▸ hprefix
  cases p with
  | nil => cases hr
  | cons a p =>
    cases p with
    | nil => cases hr
    | cons b p =>
      simp only [slashed, List.cons_append, List.nil_append, List.map_cons, List.cons.injEq] at hr
      rw [hback hne hr.1, hback (by decide) hr.2.1, drive, if_pos hletter] at hp
      cases hp

/-- An absolute path starts with no dot. -/
theorem IsAbsolute.head?_ne (h : IsAbsolute p) : (slashed p).head? ≠ some '.' := by
  obtain ⟨r, hr⟩ := h
  rcases drive_cases p with hdrive | ⟨letter, hletter, hdrive, _⟩
  · rw [← hr, hdrive]
    simp
  · rw [← hr, hdrive]
    rintro hdot
    simp only [List.cons_append, List.head?_cons, Option.some.injEq] at hdot
    rw [hdot] at hletter
    cases hletter

end Path

/-! ## The path that is reported -/

open Checkup.Path

variable {root p f w : Text}

theorem relativePath_of_append (h : slashed f = rootText root ++ w) :
    relativePath root f = dropDotSlash (w.dropWhile (· == '/')) := by
  have hafter : Text.after? (rootText root) (slashed f) = some w := Text.after?_eq_some_iff.mpr h
  show dropDotSlash (((Text.after? (rootText root) (slashed f)).map _).getD (slashed f)) = _
  rw [hafter]
  rfl

theorem relativePath_of_unrooted (h : ¬ rootText root <+: slashed f) :
    relativePath root f = dropDotSlash (slashed f) := by
  have hafter : Text.after? (rootText root) (slashed f) = none := by
    refine Option.eq_none_iff_forall_ne_some.mpr fun w hw => h ?_
    exact ⟨w, (Text.after?_eq_some_iff.mp hw).symm⟩
  show dropDotSlash (((Text.after? (rootText root) (slashed f)).map _).getD (slashed f)) = _
  rw [hafter]
  rfl

theorem dropDotSlash_eq_self {t : Text} (h : ¬ ['.', '/'] <+: t) : dropDotSlash t = t := by
  unfold dropDotSlash
  split
  · rename_i t
    exact absurd ⟨t, rfl⟩ h
  · rfl

theorem length_dropDotSlash_le (t : Text) : (dropDotSlash t).length ≤ t.length := by
  fun_induction dropDotSlash t with
  | case1 t ih => simp only [List.length_cons]; omega
  | case2 t => exact Nat.le_refl _

/-! ## Paths with normal components -/

namespace Path

theorem IsNormal.dropWhile_slash (hp : IsNormal p) : (slashed p).dropWhile (· == '/') = slashed p := by
  obtain ⟨c, t, ht, hc⟩ := hp.exists_cons [] (by simp) (List.nil_append _).symm
  rw [ht, List.dropWhile_cons_of_neg (by simpa using hc)]

theorem IsNormal.dropDotSlash_eq (hp : IsNormal p) : dropDotSlash (slashed p) = slashed p := by
  refine dropDotSlash_eq_self fun h => ?_
  obtain ⟨r, hr⟩ := h
  obtain ⟨c, t, ht, hc⟩ := hp.exists_cons ['.'] (by simp) hr.symm
  cases ht
  exact hc rfl

/-- Behind the dot of its first component a path goes on with more than a dot. -/
theorem IsNormal.dropDotSlash_tail (hp : IsNormal p) (ht : slashed p = '.' :: t) :
    dropDotSlash (t.dropWhile (· == '/')) = t := by
  obtain ⟨c, r, rfl, hc⟩ := hp.exists_cons ['.'] (by simp) ht
  rw [List.dropWhile_cons_of_neg (by simpa using hc)]
  refine dropDotSlash_eq_self fun h => ?_
  obtain ⟨r', hr'⟩ := h
  obtain ⟨c', t', ht', hc'⟩ := hp.exists_cons ['.', '.'] (by simp) (ht.trans (congrArg _ hr'.symm))
  cases ht'
  exact hc' rfl

end Path

/-- Below the root `.` the text of the root is the dot, so a leading dot is lost if it belongs to a name. -/
theorem relativePath_dot (hp : IsNormal p) :
    relativePath ['.'] ('.' :: '/' :: p) = slashed p ∧
      relativePath ['.'] p = if p.head? = some '.' then (slashed p).tail else slashed p := by
  constructor
  · have hf : slashed ('.' :: '/' :: p) = rootText ['.'] ++ '/' :: slashed p := rfl
    rw [relativePath_of_append hf, List.dropWhile_cons_of_pos rfl, hp.dropWhile_slash, hp.dropDotSlash_eq]
  cases p with
  | nil => rfl
  | cons c p =>
    split
    · rename_i hdot
      obtain rfl : c = '.' := by simpa using hdot
      have hf : slashed ('.' :: p) = rootText ['.'] ++ slashed p := rfl
      rw [relativePath_of_append hf]
      exact hp.dropDotSlash_tail rfl
    · rename_i hdot
      refine (relativePath_of_unrooted ?_).trans hp.dropDotSlash_eq
      rintro ⟨r, hr⟩
      obtain ⟨hc, -⟩ := List.cons.inj (show '.' :: r = (if c = '\\' then '/' else c) :: slashed p from hr)
      split at hc
      · cases hc
      · exact hdot (by rw [← hc]; rfl)

/-- The root and the slashes behind it are taken off, and no more. -/
theorem relativePath_append (hp : IsNormal p) (root : Text) : relativePath root (root ++ '/' :: p) = slashed p := by
  obtain ⟨k, hk⟩ := exists_slashed_eq root
  have hf : slashed (root ++ '/' :: p) = rootText root ++ (List.replicate (k + 1) '/' ++ slashed p) := by
    rw [slashed_append, hk, List.append_assoc, List.replicate_succ', List.append_assoc]
    rfl
  have hall : ∀ x ∈ List.replicate (k + 1) '/', (x == '/') = true := fun x hx => by
    simp [List.eq_of_mem_replicate hx]
  rw [relativePath_of_append hf, List.dropWhile_append_of_pos hall, hp.dropWhile_slash, hp.dropDotSlash_eq]

/-- A path in front of which an absolute root can only have an empty text keeps its components. -/
theorem relativePath_of_nil (h : rootText root <+: slashed f → rootText root = [])
    (hdrop : dropDotSlash ((slashed f).dropWhile (· == '/')) = w) (hkeep : dropDotSlash (slashed f) = w) :
    relativePath root f = w := by
  by_cases hprefix : rootText root <+: slashed f
  · rw [relativePath_of_append (w := slashed f) (by rw [h hprefix]; rfl), hdrop]
  · rw [relativePath_of_unrooted hprefix, hkeep]

theorem relativePath_dotSlash (hroot : IsAbsolute root) (hp : IsNormal p) :
    relativePath root ('.' :: '/' :: p) = slashed p := by
  have hf : slashed ('.' :: '/' :: p) = '.' :: '/' :: slashed p := rfl
  have hdrop : dropDotSlash ('.' :: '/' :: slashed p) = slashed p := hp.dropDotSlash_eq
  refine relativePath_of_nil (fun hprefix => rootText_eq_nil hroot ?_ (by rw [hf]; simp) hprefix) hdrop hdrop
  intro hne hdot
  obtain ⟨letter, hletter, hdrive, -⟩ := (drive_cases root).resolve_left hne
  rw [hdrive, hf] at hdot
  obtain ⟨rfl, -⟩ := List.cons_prefix_cons.mp hdot
  cases hletter

theorem relativePath_relative (hroot : IsAbsolute root) (hp : IsNormal p) (hdrive : drive root ≠ [] → drive p = []) :
    relativePath root p = slashed p := by
  have hslash : (slashed p).head? ≠ some '/' := by
    obtain ⟨c, t, ht, hc⟩ := hp.exists_cons [] (by simp) (List.nil_append _).symm
    rw [ht]
    simpa using hc
  refine relativePath_of_nil ?_ (by rw [hp.dropWhile_slash, hp.dropDotSlash_eq]) hp.dropDotSlash_eq
  exact rootText_eq_nil hroot (fun hne => not_drive_prefix_slashed hne (hdrive hne)) hslash

/-- The text of the root is taken off an absolute path that starts with it, also if the path is not below the root. -/
theorem relativePath_outside (hf : IsAbsolute f) (hbelow : ¬ components root <+: components f) :
    (relativePath root f = slashed f ↔ ¬ rootText root <+: slashed f) ∧
      ∀ w, slashed f = rootText root ++ w → relativePath root f = dropDotSlash w := by
  have htaken (w : Text) (hw : slashed f = rootText root ++ w) : relativePath root f = dropDotSlash w := by
    obtain ⟨-, c, t, rfl, hc⟩ := exists_behind_root hbelow hw
    rw [relativePath_of_append hw, List.dropWhile_cons_of_neg (by simpa using hc)]
  refine ⟨⟨?_, fun hprefix => ?_⟩, htaken⟩
  · rintro hsame ⟨w, hw⟩
    have hshort : (slashed f).length ≤ w.length := by
      rw [← hsame, htaken w hw.symm]
      exact length_dropDotSlash_le w
    have hpos := List.length_pos_iff.mpr (exists_behind_root hbelow hw.symm).1
    rw [← hw, List.length_append] at hshort
    omega
  · rw [relativePath_of_unrooted hprefix]
    refine dropDotSlash_eq_self fun hdot => hf.head?_ne ?_
    obtain ⟨r, hr⟩ := hdot
    rw [← hr]
    rfl

/-- **Paths as the root sees them.** Below the root `.`, a path with normal components comes out as it is if a dot and
a slash stand in front of it; if none do, it comes out as it is unless its first component starts with a dot, which is
lost. Below an absolute root it comes out as it is, with the root in front, with a dot and a slash in front, and with
nothing. An absolute path that is not below the root, component by component, comes out as it is if and only if it
does not start with the text of the root; if it does, that text is taken off. -/
theorem relativePath_normal (hp : IsNormal p) :
    (relativePath ['.'] ('.' :: '/' :: p) = slashed p ∧
      relativePath ['.'] p = if p.head? = some '.' then (slashed p).tail else slashed p) ∧
    ∀ root, IsAbsolute root →
      (relativePath root (root ++ '/' :: p) = slashed p ∧ relativePath root ('.' :: '/' :: p) = slashed p ∧
        ((drive root ≠ [] → drive p = []) → relativePath root p = slashed p)) ∧
      ∀ f, IsAbsolute f → ¬ components root <+: components f →
        (relativePath root f = slashed f ↔ ¬ rootText root <+: slashed f) ∧
        ∀ w, slashed f = rootText root ++ w → relativePath root f = dropDotSlash w :=
  ⟨relativePath_dot hp, fun root hroot =>
    ⟨⟨relativePath_append hp root, relativePath_dotSlash hroot hp, relativePath_relative hroot hp⟩,
      fun _ => relativePath_outside⟩⟩

/-- A path with both separators and a hidden directory in it, a root with a slash at its end and a root on a disk, and
paths beside the root. -/
theorem relativePath_normal_shop :
    let p := "app\\.cache/page.tsx".toList
    IsNormal p ∧ IsAbsolute "/work/shop/".toList ∧ IsAbsolute "C:\\shop".toList ∧ IsAbsolute "/work/blog/a.ts".toList ∧
      ¬ components "/work/shop/".toList <+: components "/work/blog/a.ts".toList ∧
      relativePath ['.'] p = "app/.cache/page.tsx".toList ∧
      relativePath "/work/shop/".toList ("/work/shop/".toList ++ '/' :: p) = "app/.cache/page.tsx".toList ∧
      relativePath "C:\\shop".toList p = "app/.cache/page.tsx".toList ∧
      relativePath "/work/shop/".toList "/work/blog/a.ts".toList = "/work/blog/a.ts".toList := by
  intro p
  have hp : IsNormal p := by decide
  have hshop : IsAbsolute "/work/shop/".toList := by decide
  have hdisk : IsAbsolute "C:\\shop".toList := by decide
  have hblog : IsAbsolute "/work/blog/a.ts".toList := by decide
  have hbeside : ¬ components "/work/shop/".toList <+: components "/work/blog/a.ts".toList := by decide
  obtain ⟨⟨-, hdot⟩, hroots⟩ := relativePath_normal hp
  obtain ⟨⟨hbelow, -, -⟩, houtside⟩ := hroots _ hshop
  obtain ⟨⟨-, -, hrelative⟩, -⟩ := hroots _ hdisk
  exact ⟨hp, hshop, hdisk, hblog, hbeside, hdot, hbelow, hrelative fun _ => by decide,
    (houtside _ hblog hbeside).1.mpr (by decide)⟩

/-- A hidden directory below `.` loses its dot, and a directory whose name is longer than that of the root counts as a
part of it. -/
theorem relativePath_loses_dot :
    IsNormal ".storybook/main.ts".toList ∧
      relativePath ['.'] ".storybook/main.ts".toList = "storybook/main.ts".toList ∧
      IsAbsolute "/work/shop".toList ∧ IsAbsolute "/work/shop-admin/a.ts".toList ∧
      ¬ components "/work/shop".toList <+: components "/work/shop-admin/a.ts".toList ∧
      relativePath "/work/shop".toList "/work/shop-admin/a.ts".toList = "-admin/a.ts".toList := by decide

end Checkup
