import Mathlib.Data.List.Induction
import Mathlib.Data.List.Lex
import Mathlib.Data.List.Sort
import Mathlib.Data.List.TakeWhile
import Mathlib.Data.Prod.Lex
import Mathlib.Data.String.Basic
import SidecarAdmission.Storage.Path

/-!
Paths by their components. The order of paths is the lexicographic one of their components, however
they are spelled; the directory of a file lacks its last component, and is the current directory if
nothing else is left. Directories of files are kept in that order, each once, in the spelling that
came last.
-/

set_option autoImplicit false
set_option relaxedAutoImplicit false

namespace SidecarAdmission.Storage

namespace Component

/-- A component as a pair by which components are ordered. -/
def key (c : Component) : ℕ ×ₗ String := toLex (c.rank, c.text)

theorem key_injective : Function.Injective key := by
  intro a b h
  obtain ⟨hrank, htext⟩ := Prod.mk.inj (toLex_inj.mp h)
  cases a <;> cases b <;> simp_all [rank, text]

theorem isBefore_iff (a b : Component) : a.isBefore b = true ↔ a.key < b.key := by
  rw [isBefore, key, key, Prod.Lex.toLex_lt_toLex]
  simp

end Component

namespace Path

/-! ### The order of paths -/

theorem isBefore_iff (as bs : List Component) :
    isBefore as bs = true ↔ as.map Component.key < bs.map Component.key := by
  induction as generalizing bs with
  | nil =>
    cases bs with
    | nil => simp [isBefore]
    | cons b bs => simp [isBefore]
  | cons a as ih =>
    cases bs with
    | nil => simp [isBefore]
    | cons b bs =>
      rw [isBefore, List.map_cons, List.map_cons, List.cons_lt_cons_iff, Bool.or_eq_true,
        Bool.and_eq_true, Component.isBefore_iff, ih, beq_iff_eq, Component.key_injective.eq_iff]

theorem isBefore_irrefl (as : List Component) : isBefore as as = false := by
  rw [← Bool.not_eq_true, isBefore_iff]
  exact lt_irrefl _

theorem isBefore_trans {as bs cs : List Component} (h : isBefore as bs = true)
    (h' : isBefore bs cs = true) : isBefore as cs = true := by
  rw [isBefore_iff] at h h' ⊢
  exact h.trans h'

/-- Of two paths with different components one comes before the other. -/
theorem isBefore_of_ne {as bs : List Component} (hne : as ≠ bs) (h : isBefore as bs = false) :
    isBefore bs as = true := by
  rw [← Bool.not_eq_true, isBefore_iff, not_lt] at h
  rw [isBefore_iff]
  exact lt_of_le_of_ne h fun hsame => hne (Component.key_injective.list_map hsame).symm

/-- Whether paths stand in order, no two of them with the same components. -/
def Ascends (paths : List String) : Prop :=
  paths.Pairwise fun a b => isBefore (components a) (components b) = true

theorem Ascends.pairwise_ne {paths : List String} (h : Ascends paths) :
    paths.Pairwise fun a b => components a ≠ components b := by
  refine h.imp fun {a b} hbefore hsame => ?_
  rw [hsame, isBefore_irrefl] at hbefore
  contradiction

/-- Two lists of paths in order have the same components if each path has its equal. -/
theorem Ascends.map_components_eq {paths others : List String} (h : Ascends paths)
    (h' : Ascends others)
    (hsame : ∀ cs, (∃ p ∈ paths, components p = cs) ↔ ∃ p ∈ others, components p = cs) :
    paths.map components = others.map components := by
  let Sorted (ps : List String) : Prop :=
    (ps.map fun p => (components p).map Component.key).Pairwise (· < ·)
  have hsorted : ∀ ps, Ascends ps → Sorted ps := by
    intro ps hps
    exact List.pairwise_map.mpr (hps.imp fun hbefore => (isBefore_iff _ _).mp hbefore)
  have hkeys : (paths.map fun p => (components p).map Component.key) =
      others.map fun p => (components p).map Component.key := by
    refine (hsorted paths h).eq_of_mem_iff (hsorted others h') fun key => ?_
    simp only [List.mem_map]
    constructor
    · rintro ⟨p, hp, rfl⟩
      obtain ⟨q, hq, heq⟩ := (hsame _).mp ⟨p, hp, rfl⟩
      exact ⟨q, hq, by rw [heq]⟩
    · rintro ⟨p, hp, rfl⟩
      obtain ⟨q, hq, heq⟩ := (hsame _).mpr ⟨p, hp, rfl⟩
      exact ⟨q, hq, by rw [heq]⟩
  refine Component.key_injective.list_map.list_map ?_
  simpa only [List.map_map, Function.comp_def] using hkeys

/-! ### Paths in order -/

theorem mem_insert_self (path : String) (ds : List String) : path ∈ insert path ds := by
  induction ds with
  | nil => exact List.mem_singleton.mpr rfl
  | cons first rest ih =>
    unfold insert
    split
    · exact List.mem_cons_self
    · split
      · exact List.mem_cons_self
      · exact List.mem_cons_of_mem first ih

/-- A path with other components stays as it is spelled. -/
theorem mem_insert_of_ne {path d : String} {ds : List String}
    (hne : components d ≠ components path) (h : d ∈ ds) : d ∈ insert path ds := by
  induction ds with
  | nil => contradiction
  | cons first rest ih =>
    unfold insert
    split
    next hsame =>
      rcases List.mem_cons.mp h with rfl | hrest
      · exact absurd hsame.symm hne
      · exact List.mem_cons_of_mem path hrest
    next =>
      split
      · exact List.mem_cons_of_mem path h
      · rcases List.mem_cons.mp h with rfl | hrest
        · exact List.mem_cons_self
        · exact List.mem_cons_of_mem first (ih hrest)

/-- No path is lost, but another spelling may take its place. -/
theorem exists_mem_insert_of_mem (path : String) {d : String} {ds : List String} (h : d ∈ ds) :
    ∃ d' ∈ insert path ds, components d' = components d := by
  by_cases hsame : components d = components path
  · exact ⟨path, mem_insert_self path ds, hsame.symm⟩
  · exact ⟨d, mem_insert_of_ne hsame h, rfl⟩

theorem eq_or_mem_of_mem_insert {path d : String} {ds : List String} (h : d ∈ insert path ds) :
    d = path ∨ d ∈ ds := by
  induction ds with
  | nil => exact .inl (List.mem_singleton.mp h)
  | cons first rest ih =>
    unfold insert at h
    split at h
    · exact (List.mem_cons.mp h).imp_right (List.mem_cons_of_mem first)
    · split at h
      · exact List.mem_cons.mp h
      · rcases List.mem_cons.mp h with rfl | hrest
        · exact .inr List.mem_cons_self
        · exact (ih hrest).imp_right (List.mem_cons_of_mem first)

theorem ascends_insert (path : String) {ds : List String} (h : Ascends ds) :
    Ascends (insert path ds) := by
  induction ds with
  | nil => exact List.pairwise_singleton _ _
  | cons first rest ih =>
    obtain ⟨hfirst, hrest⟩ := List.pairwise_cons.mp h
    unfold insert
    split
    next hsame =>
      refine List.pairwise_cons.mpr ⟨fun d hd => ?_, hrest⟩
      rw [hsame]
      exact hfirst d hd
    next hne =>
      split
      next hbefore =>
        refine List.pairwise_cons.mpr ⟨fun d hd => ?_, h⟩
        rcases List.mem_cons.mp hd with rfl | hd
        · exact hbefore
        · exact isBefore_trans hbefore (hfirst d hd)
      next hnot =>
        refine List.pairwise_cons.mpr ⟨fun d hd => ?_, ih hrest⟩
        rcases eq_or_mem_of_mem_insert hd with rfl | hd
        · exact isBefore_of_ne hne (Bool.eq_false_iff.mpr hnot)
        · exact hfirst d hd

/-! ### The directory of a file -/

/-- The components in a text, but for what it begins with. -/
def names (s : List Char) : List Component := (pieces s).filterMap component?

theorem pieces_ne_nil (s : List Char) : pieces s ≠ [] := by
  cases s with
  | nil => simp [pieces]
  | cons c rest =>
    rw [pieces]
    split
    · exact List.cons_ne_nil _ _
    · split <;> exact List.cons_ne_nil _ _

theorem pieces_append_slash (a b : List Char) : pieces (a ++ '/' :: b) = pieces a ++ pieces b := by
  induction a with
  | nil => simp [pieces]
  | cons c a ih =>
    obtain ⟨first, more, hpieces⟩ := List.exists_cons_of_ne_nil (pieces_ne_nil a)
    rw [List.cons_append, pieces, pieces, ih, hpieces]
    split <;> rfl

theorem names_append_slash (a b : List Char) : names (a ++ '/' :: b) = names a ++ names b := by
  rw [names, pieces_append_slash, List.filterMap_append]
  rfl

theorem names_slash (b : List Char) : names ('/' :: b) = names b := names_append_slash [] b

theorem names_piece {piece : List Char} (h : '/' ∉ piece) :
    names piece = (component? piece).toList := by
  have hpieces : pieces piece = [piece] := by
    induction piece with
    | nil => rfl
    | cons c rest ih =>
      obtain ⟨hc, hrest⟩ := not_or.mp fun hmem => h (List.mem_cons.mpr hmem)
      rw [pieces, if_neg fun hslash => hc hslash.symm, ih hrest]
  rw [names, hpieces]
  cases hc : component? piece <;> simp [hc]

/-- A text that is read from its end, cut at the last slash. -/
private theorem cut_slash (r : List Char) :
    ∃ piece, '/' ∉ piece ∧ r.takeWhile (· != '/') = piece ∧
      (r = piece ∧ r.dropWhile (· != '/') = [] ∨
        ∃ up, r = piece ++ '/' :: up ∧ r.dropWhile (· != '/') = '/' :: up) := by
  have hwhole := List.takeWhile_append_dropWhile (p := (· != '/')) (l := r)
  refine ⟨_, fun hmem => ?_, rfl, ?_⟩
  · simpa using List.mem_takeWhile_imp hmem
  · cases hrest : r.dropWhile (· != '/') with
    | nil =>
      rw [hrest, List.append_nil] at hwhole
      exact .inl ⟨hwhole.symm, rfl⟩
    | cons c up =>
      have hc : c = '/' := by
        have hhead := List.head_dropWhile_not (· != '/') (l := r) (by simp [hrest])
        simpa [hrest] using hhead
      subst c
      rw [hrest] at hwhole
      exact .inr ⟨up, hwhole.symm, rfl⟩

/-- What is left of a text that is read from its end when it ends with a component. -/
structure IsTrimmed (r trimmed : List Char) : Prop where
  names_eq : names trimmed.reverse = names r.reverse
  ends : trimmed = [] ∨
    ∃ piece c, '/' ∉ piece ∧ component? piece.reverse = some c ∧
      (trimmed = piece ∨ ∃ up, trimmed = piece ++ '/' :: up)
  cut : trimmed = [] ∨ r = trimmed ∨ ∃ skipped, r = skipped ++ '/' :: trimmed

theorem isTrimmed_trimReversed {fuel : Nat} {r : List Char} (h : r.length ≤ fuel) :
    IsTrimmed r (trimReversed fuel r) := by
  induction fuel generalizing r with
  | zero =>
    obtain rfl := List.length_eq_zero_iff.mp (Nat.le_zero.mp h)
    exact ⟨rfl, .inl rfl, .inl rfl⟩
  | succ fuel ih =>
    obtain ⟨piece, hpiece, htake, hcut⟩ := cut_slash r
    have hreversed : '/' ∉ piece.reverse := fun hmem => hpiece (List.mem_reverse.mp hmem)
    rw [trimReversed, htake]
    split
    next hstop =>
      refine ⟨rfl, ?_, .inr (.inl rfl)⟩
      rcases Bool.or_eq_true_iff.mp hstop with hempty | hsome
      · exact .inl (List.isEmpty_iff.mp hempty)
      · obtain ⟨c, hc⟩ := Option.isSome_iff_exists.mp hsome
        refine .inr ⟨piece, c, hpiece, hc, ?_⟩
        exact hcut.imp And.left fun ⟨up, hup, _⟩ => ⟨up, hup⟩
    next hgoes =>
      -- what stands after the last slash is no component, and goes with the slash
      have hnone : component? piece.reverse = none := by
        rw [Bool.or_eq_true, not_or, Option.not_isSome_iff_eq_none] at hgoes
        exact hgoes.2
      rcases hcut with ⟨hwhole, -⟩ | ⟨up, hup, -⟩
      · have hdrop : r.drop (piece.length + 1) = [] := by simp [hwhole]
        have hnames : names r.reverse = [] := by rw [hwhole, names_piece hreversed, hnone]; rfl
        have hrest := ih (r := []) (Nat.zero_le fuel)
        rw [hdrop]
        refine ⟨hrest.names_eq.trans hnames.symm, hrest.ends, ?_⟩
        rcases hrest.cut with hnil | hnil | ⟨skipped, hnil⟩
        · exact .inl hnil
        · exact .inl hnil.symm
        · simp at hnil
      · have hdrop : r.drop (piece.length + 1) = up := by simp [hup]
        have hnames : names r.reverse = names up.reverse := by
          rw [hup, List.reverse_append, List.reverse_cons, List.append_assoc, List.singleton_append,
            names_append_slash, names_piece hreversed, hnone]
          simp
        have hrest := ih (r := up) (by rw [hup] at h; simp at h; omega)
        rw [hdrop]
        refine ⟨hrest.names_eq.trans hnames.symm, hrest.ends, ?_⟩
        rcases hrest.cut with hnil | hsame | ⟨skipped, hskipped⟩
        · exact .inl hnil
        · exact .inr (.inr ⟨piece, by rw [← hsame]; exact hup⟩)
        · refine .inr (.inr ⟨piece ++ '/' :: skipped, ?_⟩)
          rw [List.append_assoc, List.cons_append, ← hskipped]
          exact hup

/-- What a path begins with is told by its components. -/
def headOf (front : List Char) : List Component :=
  if front = ['/'] then [.root] else if front = ['.'] then [.current] else []

theorem components_eq (path : String) :
    components path = headOf (front path.toList) ++ names path.toList := rfl

theorem names_drop_front (s : List Char) : names (s.drop (front s).length) = names s := by
  unfold front
  split
  next body => exact (names_slash body).symm
  next => rfl
  next rest =>
    have hpoint : names ('.' :: '/' :: rest) = names rest := names_append_slash ['.'] rest
    rw [hpoint]
    exact names_slash rest
  next => rfl

/-- What a path begins with stands at its beginning. -/
theorem front_append_drop (s : List Char) : front s ++ s.drop (front s).length = s := by
  unfold front
  split <;> rfl

theorem front_cases (s : List Char) : front s = ['/'] ∨ front s = ['.'] ∨ front s = [] := by
  unfold front
  split <;> simp

theorem front_front (s : List Char) : front (front s) = front s := by
  rcases front_cases s with h | h | h <;> rw [h] <;> rfl

theorem dropLast_headOf_front (s : List Char) : (headOf (front s)).dropLast = [] := by
  rcases front_cases s with h | h | h <;> rw [h] <;> rfl

/-- What a path begins with is what the path of a directory above it begins with. -/
theorem front_of_above {s up : List Char} (hup : up ≠ []) (h : ∃ rest, s = up ++ '/' :: rest) :
    front up = front s := by
  obtain ⟨rest, rfl⟩ := h
  obtain ⟨c, more, rfl⟩ := List.exists_cons_of_ne_nil hup
  by_cases hslash : c = '/'
  · simp [hslash, front]
  · by_cases hpoint : c = '.'
    · subst c
      cases more with
      | nil => rfl
      | cons d more =>
        by_cases hd : d = '/'
        · simp [hd, front]
        · simp [hd, front]
    · simp [hslash, hpoint, front]

/-- What stands above the last component of a text that is read from its end. -/
theorem exists_above {r piece : List Char} {c : Component} (hpiece : '/' ∉ piece)
    (hc : component? piece.reverse = some c)
    (h : r = piece ∨ ∃ above, r = piece ++ '/' :: above) :
    let above := (r.dropWhile (· != '/')).drop 1
    let up := (trimReversed above.length above).reverse
    names r.reverse = names up ++ [c] ∧
      (up = [] ∨ names up ≠ [] ∧ ∃ rest, r.reverse = up ++ '/' :: rest) := by
  intro above up
  have hreversed : '/' ∉ piece.reverse := fun hmem => hpiece (List.mem_reverse.mp hmem)
  have hlast : names piece.reverse = [c] := by rw [names_piece hreversed, hc]; rfl
  have hskip : ∀ x ∈ piece, (x != '/') = true := fun x hx => bne_iff_ne.mpr fun hslash =>
    hpiece (hslash ▸ hx)
  have htrimmed : IsTrimmed above up.reverse := by
    rw [List.reverse_reverse]
    exact isTrimmed_trimReversed (Nat.le_refl _)
  have hnames : names up = names above.reverse := by
    rw [← htrimmed.names_eq, List.reverse_reverse]
  have hends : up ≠ [] → names up ≠ [] := by
    intro hup
    rcases htrimmed.ends with hnil | ⟨p, d, hp, hd, hcut⟩
    · exact absurd (List.reverse_eq_nil_iff.mp hnil) hup
    · have hp' : '/' ∉ p.reverse := fun hmem => hp (List.mem_reverse.mp hmem)
      have hback : up = up.reverse.reverse := (List.reverse_reverse up).symm
      rcases hcut with hsame | ⟨higher, hsame⟩
      · rw [hback, hsame, names_piece hp', hd]
        exact List.cons_ne_nil _ _
      · rw [hback, hsame, List.reverse_append, List.reverse_cons, List.append_assoc,
          List.singleton_append, names_append_slash, names_piece hp', hd]
        simp
  rcases h with rfl | ⟨higher, rfl⟩
  · have habove : above = [] := by
      simp only [above, List.dropWhile_eq_nil_iff.mpr hskip, List.drop_nil]
    have hup : up = [] := by simp only [up, habove]; rfl
    rw [hlast, hup]
    exact ⟨rfl, .inl rfl⟩
  · have habove : above = higher := by
      simp only [above, List.dropWhile_append_of_pos hskip]
      simp
    have hwhole : (piece ++ '/' :: higher).reverse = higher.reverse ++ '/' :: piece.reverse := by
      simp
    rw [hwhole, names_append_slash, hlast, hnames, habove]
    refine ⟨rfl, ?_⟩
    by_cases hup : up = []
    · exact .inl hup
    · refine .inr ⟨by rw [← habove, ← hnames]; exact hends hup, ?_⟩
      rcases htrimmed.cut with hnil | hsame | ⟨skipped, hcut⟩
      · exact absurd (List.reverse_eq_nil_iff.mp hnil) hup
      · have hhigher : higher.reverse = up := by rw [← habove, hsame, List.reverse_reverse]
        exact ⟨piece.reverse, by rw [hhigher]⟩
      · have hhigher : higher.reverse = up ++ '/' :: skipped.reverse := by
          rw [← habove, hcut]
          simp
        exact ⟨skipped.reverse ++ '/' :: piece.reverse, by rw [hhigher]; simp⟩

/-- The path of a directory begins with what the path of a file in it begins with. -/
theorem front_append_up {s up : List Char}
    (h : up = [] ∨ up ≠ [] ∧ ∃ rest, s = front s ++ up ++ '/' :: rest) :
    front (front s ++ up) = front s := by
  rcases h with rfl | ⟨hup, hrest⟩
  · rw [List.append_nil, front_front]
  · exact front_of_above (List.append_ne_nil_of_right_ne_nil _ hup) hrest

/-- A path without components of its own has no directory but the current one; else the path of the
directory ends before the last of them. -/
theorem parent?_cases (path : String) :
    (names path.toList = [] ∧
      parent? path = if front path.toList = ['.'] then some "" else none) ∨
    ∃ up c, names path.toList = names up ++ [c] ∧ (up = [] ∨ names up ≠ []) ∧
      front (front path.toList ++ up) = front path.toList ∧
      parent? path = some (String.ofList (front path.toList ++ up)) := by
  let s := path.toList
  let body := (s.drop (front s).length).reverse
  have htrimmed : IsTrimmed body (trimReversed body.length body) :=
    isTrimmed_trimReversed (Nat.le_refl _)
  have hbody : names body.reverse = names s := by
    rw [List.reverse_reverse]
    exact names_drop_front s
  rcases htrimmed.ends with hnil | ⟨piece, c, hpiece, hc, hends⟩
  · refine .inl ⟨?_, ?_⟩
    · rw [← hbody, ← htrimmed.names_eq, hnil]
      rfl
    · unfold parent?
      rw [if_pos (by rw [List.isEmpty_iff]; exact hnil)]
  · obtain ⟨hnames, hup⟩ := exists_above hpiece hc hends
    set above := ((trimReversed body.length body).dropWhile (· != '/')).drop 1
    set up := (trimReversed above.length above).reverse
    have hwhole : s = front s ++ body.reverse := by
      rw [List.reverse_reverse]
      exact (front_append_drop s).symm
    have habove : up = [] ∨ up ≠ [] ∧ ∃ rest, s = front s ++ up ++ '/' :: rest := by
      refine hup.imp_right fun ⟨hsome, rest, hrest⟩ =>
        ⟨fun hnil => hsome (by rw [hnil]; rfl), ?_⟩
      rcases htrimmed.cut with hnil | hsame | ⟨skipped, hskipped⟩
      · simp [hnil] at hrest
      · exact ⟨rest, by rw [List.append_assoc, ← hrest, ← hsame]; exact hwhole⟩
      · refine ⟨rest ++ '/' :: skipped.reverse, hwhole.trans ?_⟩
        rw [hskipped, List.reverse_append, List.reverse_cons, hrest]
        simp
    have hsome : (trimReversed body.length body).isEmpty = false := by
      rw [← Bool.not_eq_true, List.isEmpty_iff]
      intro hempty
      rw [hempty] at hnames
      exact List.append_ne_nil_of_right_ne_nil _ (List.cons_ne_nil c []) hnames.symm
    refine .inr ⟨up, c, ?_, hup.imp_right And.left, front_append_up habove, ?_⟩
    · rw [← hnames, htrimmed.names_eq, hbody]
    · unfold parent?
      rw [if_neg (Bool.eq_false_iff.mp hsome)]

/-- The directory of a file has all of its components but the last; if that leaves nothing, it is
the current directory. -/
theorem components_directory (path : String) :
    components (directory path) =
      if (components path).dropLast = [] then [.current] else (components path).dropLast := by
  rcases parent?_cases path with ⟨hnames, hparent⟩ | ⟨up, c, hnames, hup, hfront, hparent⟩
  · have hhere : directory path = "." := by
      unfold directory
      rw [hparent]
      split <;> simp_all
    have hcomponents : components path = headOf (front path.toList) := by
      rw [components_eq, hnames, List.append_nil]
    rw [hhere, hcomponents, if_pos (dropLast_headOf_front _)]
    rfl
  · have hdropLast : (components path).dropLast = headOf (front path.toList) ++ names up := by
      rw [components_eq, hnames, ← List.append_assoc, List.dropLast_concat]
    rw [hdropLast]
    by_cases hempty : front path.toList ++ up = []
    · obtain ⟨hfrontNil, rfl⟩ := List.append_eq_nil_iff.mp hempty
      have hhere : directory path = "." := by
        unfold directory
        rw [hparent, hempty]
        rfl
      rw [hhere, hfrontNil]
      rfl
    · have hthere : directory path = String.ofList (front path.toList ++ up) := by
        have hne : String.ofList (front path.toList ++ up) ≠ "" := fun h =>
          hempty (by simpa using congrArg String.toList h)
        unfold directory
        rw [hparent]
        split <;> simp_all
      have hnamesUp : names (front path.toList ++ up) = names up := by
        have hdrop := names_drop_front (front path.toList ++ up)
        rw [hfront, List.drop_left] at hdrop
        exact hdrop.symm
      have hleft : headOf (front path.toList) ++ names up ≠ [] := by
        rcases hup with rfl | hsome
        · rw [List.append_nil] at hempty
          rcases front_cases path.toList with h | h | h
          · simp [h, headOf]
          · simp [h, headOf]
          · exact absurd h hempty
        · exact List.append_ne_nil_of_right_ne_nil _ hsome
      rw [hthere, if_neg hleft, components_eq, String.toList_ofList, hfront, hnamesUp]

/-! ### The directories of files -/

theorem directories_concat (files : List String) (file : String) :
    directories (files ++ [file]) = insert (directory file) (directories files) :=
  List.foldl_concat _ _ _ _

theorem ascends_directories (files : List String) : Ascends (directories files) := by
  induction files using List.reverseRecOn with
  | nil => exact List.Pairwise.nil
  | append_singleton files file ih =>
    rw [directories_concat]
    exact ascends_insert _ ih

/-- The directory of each file is among the directories of all files. -/
theorem exists_mem_directories {files : List String} {file : String} (h : file ∈ files) :
    ∃ d ∈ directories files, components d = components (directory file) := by
  induction files using List.reverseRecOn with
  | nil => contradiction
  | append_singleton files last ih =>
    rw [directories_concat]
    rcases List.mem_append.mp h with hfile | hlast
    · obtain ⟨d, hd, hsame⟩ := ih hfile
      obtain ⟨d', hd', hsame'⟩ := exists_mem_insert_of_mem (directory last) hd
      exact ⟨d', hd', hsame'.trans hsame⟩
    · rw [List.mem_singleton.mp hlast]
      exact ⟨directory last, mem_insert_self _ _, rfl⟩

/-- Of the files in one directory the last tells how it is spelled. -/
theorem directory_mem_directories {before after : List String} {file : String}
    (h : ∀ other ∈ after, components (directory other) ≠ components (directory file)) :
    directory file ∈ directories (before ++ file :: after) := by
  induction after using List.reverseRecOn with
  | nil =>
    rw [directories_concat]
    exact mem_insert_self _ _
  | append_singleton after last ih =>
    have hbefore := ih fun other hother => h other (List.mem_append_left [last] hother)
    have hlast : components (directory file) ≠ components (directory last) :=
      (h last (List.mem_append_right after (List.mem_singleton.mpr rfl))).symm
    rw [← List.cons_append, ← List.append_assoc, directories_concat]
    exact mem_insert_of_ne hlast hbefore

/-- Every directory is spelled as that of some file. -/
theorem exists_eq_directory {files : List String} {d : String} (h : d ∈ directories files) :
    ∃ file ∈ files, d = directory file := by
  induction files using List.reverseRecOn with
  | nil => contradiction
  | append_singleton files last ih =>
    rw [directories_concat] at h
    rcases eq_or_mem_of_mem_insert h with rfl | hd
    · exact ⟨last, by simp, rfl⟩
    · obtain ⟨file, hfile, rfl⟩ := ih hd
      exact ⟨file, List.mem_append_left [last] hfile, rfl⟩

/-- Neither the order of files nor how often each is named tells in their directories, but for the
spelling. -/
theorem map_components_directories {files others : List String}
    (h : ∀ file, file ∈ files ↔ file ∈ others) :
    (directories files).map components = (directories others).map components := by
  have hhas : ∀ fs cs, (∃ d ∈ directories fs, components d = cs) ↔
      ∃ file ∈ fs, components (directory file) = cs := by
    intro fs cs
    constructor
    · rintro ⟨d, hd, rfl⟩
      obtain ⟨file, hfile, rfl⟩ := exists_eq_directory hd
      exact ⟨file, hfile, rfl⟩
    · rintro ⟨file, hfile, rfl⟩
      exact exists_mem_directories hfile
  refine (ascends_directories files).map_components_eq (ascends_directories others) fun cs => ?_
  simp only [hhas, h]

end Path

end SidecarAdmission.Storage
