import SidecarAdmission.Storage.FileStore

/-!
Places that are reached. Whoever walks to a place goes through directories that are there, so all
that lies above a file that can be written is there too.
-/

set_option autoImplicit false
set_option relaxedAutoImplicit false

namespace SidecarAdmission.Storage.FileStore

/-- Whether something lies at a place and at every place above it. -/
def Reaches (s : FileStore) (place : Place) : Prop :=
  ∀ n ≤ place.length, (s.at? (place.take n)).isSome = true

/-- The place that names lead to from another, whether something lies there or not. -/
def follow (place : Place) (names : List String) : Place :=
  names.foldl
    (fun place n => if n = "." then place else if n = ".." then place.dropLast else place ++ [n])
    place

variable {s : FileStore} {place target : Place}

theorem reaches_of_prefix_home (h : place <+: s.home) : s.Reaches place := by
  intro n _
  have htake : (place.take n).isPrefixOf s.home = true :=
    List.isPrefixOf_iff_prefix.mpr ((List.take_prefix n place).trans h)
  simp [at?, htake]

theorem reaches_origin (path : String) : s.Reaches (s.origin path) := by
  unfold origin
  split
  · exact reaches_of_prefix_home List.nil_prefix
  · exact reaches_of_prefix_home List.prefix_rfl

theorem Reaches.dropLast (h : s.Reaches place) : s.Reaches place.dropLast := by
  intro n hn
  rw [List.length_dropLast] at hn
  rw [List.dropLast_eq_take, List.take_take]
  exact h _ (by omega)

theorem Reaches.concat (h : s.Reaches place) {name : String}
    (hname : (s.at? (place ++ [name])).isSome = true) : s.Reaches (place ++ [name]) := by
  intro n hn
  by_cases hlast : n ≤ place.length
  · rw [List.take_append_of_le_length hlast]
    exact h n hlast
  · have hall : (place ++ [name]).length ≤ n := by
      rw [List.length_append, List.length_singleton]
      omega
    rw [List.take_of_length_le hall]
    exact hname

/-- Walking leads where the names lead, through directories that are there. -/
theorem reaches_of_walk {names : List String} (h : s.Reaches place)
    (hwalk : s.walk place names = .ok target) :
    s.Reaches target ∧ target = follow place names := by
  induction names generalizing place with
  | nil =>
    cases hwalk
    exact ⟨h, rfl⟩
  | cons name rest ih =>
    rw [walk] at hwalk
    rw [follow, List.foldl_cons]
    split at hwalk
    next => contradiction
    next => contradiction
    next =>
      split at hwalk
      next hdot =>
        rw [if_pos hdot]
        exact ih h hwalk
      next hdot =>
        rw [if_neg hdot]
        split at hwalk
        next hup =>
          rw [if_pos hup]
          exact ih h.dropLast hwalk
        next hup =>
          rw [if_neg hup]
          split at hwalk
          next => contradiction
          next =>
            split at hwalk
            next hthere => exact ih (h.concat hthere) hwalk
            next => contradiction

/-- Writing a file puts it at the place that its path names, in a directory that is reached; no
directory is there already. -/
theorem set_of_write {path : String} {content : Text.Octets} {s' : FileStore}
    (h : s.write path content = .ok s') :
    s' = s.set (s.placeOf path) (.file content) ∧ s.at? (s.placeOf path) ≠ some .directory ∧
      ∃ above name, s.placeOf path = above ++ [name] ∧ s.Reaches above := by
  unfold write at h
  cases hcheck : check path with
  | error e =>
    rw [hcheck] at h
    contradiction
  | ok _ =>
    rw [hcheck] at h
    cases hlast : (names path).getLast? with
    | none =>
      simp only [bind, Except.bind, hlast] at h
      contradiction
    | some name =>
      simp only [bind, Except.bind, hlast] at h
      split at h
      next =>
        split at h <;> contradiction
      next hplain =>
        split at h
        next => contradiction
        next above hwalk =>
          obtain ⟨hreached, habove⟩ := reaches_of_walk (reaches_origin path) hwalk
          have hplace : s.placeOf path = above ++ [name] := by
            obtain ⟨before, hnames⟩ := List.getLast?_eq_some_iff.mp hlast
            rw [hnames, List.dropLast_concat] at habove
            have hfollow : s.placeOf path = follow (s.origin path) (names path) := rfl
            rw [hfollow, hnames, follow, List.foldl_append, List.foldl_cons, List.foldl_nil,
              if_neg fun hdot => hplain (.inl hdot), if_neg fun hup => hplain (.inr hup), habove,
              follow]
          rw [hplace]
          refine ⟨?_, ?_, above, name, rfl, hreached⟩
          · split at h
            next => contradiction
            next => contradiction
            next =>
              split at h
              · contradiction
              · exact (Except.ok.inj h).symm
            next =>
              split at h
              · contradiction
              · split at h
                · contradiction
                · exact (Except.ok.inj h).symm
          · intro hdirectory
            rw [hdirectory] at h
            cases hat : s.at? above with
            | none =>
              rw [hat] at h
              contradiction
            | some e =>
              rw [hat] at h
              cases e <;> contradiction

/-! ### What is read after a file has been written -/

private theorem lookup_filter_ne (entries : List (Place × Entry)) (place other : Place) :
    (entries.filter (·.1 != place)).lookup other =
      if other = place then none else entries.lookup other := by
  induction entries with
  | nil => simp
  | cons m rest ih =>
    obtain ⟨q, e⟩ := m
    by_cases hq : q = place
    · subst q
      by_cases ho : other = place
      · simpa [ho] using ih
      · have hskip : (other == place) = false := by simpa using ho
        simpa [ho, List.lookup_cons, hskip] using ih
    · have hkept : ((q, e).1 != place) = true := by simpa using hq
      rw [List.filter_cons, if_pos hkept, List.lookup_cons, List.lookup_cons, ih]
      by_cases ho : other = q
      · have hne : ¬ other = place := ho ▸ hq
        simp [ho, hq]
      · have hskip : (other == q) = false := by simpa using ho
        rw [hskip]

/-- Where no directory is, something put at a place is there, and everything else is where it
was. -/
theorem at?_set {e : Entry} (h : s.at? place ≠ some .directory) (other : Place) :
    (s.set place e).at? other = if other = place then some e else s.at? other := by
  have hhome : place.isPrefixOf s.home = false := by
    refine Bool.eq_false_iff.mpr fun hprefix => h ?_
    rw [at?, if_pos hprefix]
  unfold at? set
  rw [List.lookup_append, lookup_filter_ne]
  by_cases hother : other = place
  · simp [hother, hhome]
  · have hskip : (other == place) = false := by simpa using hother
    simp [hother, List.lookup_cons, hskip]

/-- Whoever walks through directories goes the same way where these are and nothing is gone. -/
theorem walk_of_kept {s' : FileStore} {names : List String}
    (hdirectory : ∀ q, s.at? q = some .directory → s'.at? q = some .directory)
    (hthere : ∀ q, (s.at? q).isSome = true → (s'.at? q).isSome = true)
    (h : s.walk place names = .ok target) : s'.walk place names = .ok target := by
  induction names generalizing place with
  | nil => exact h
  | cons name rest ih =>
    rw [walk] at h ⊢
    cases hat : s.at? place with
    | none =>
      rw [hat] at h
      contradiction
    | some e =>
      rw [hat] at h
      cases e with
      | file content => contradiction
      | directory =>
        rw [hdirectory place hat]
        simp only at h ⊢
        split at h
        next hdot => rw [if_pos hdot]; exact ih h
        next hdot =>
          rw [if_neg hdot]
          split at h
          next hup => rw [if_pos hup]; exact ih h
          next hup =>
            rw [if_neg hup]
            split at h
            next => contradiction
            next hshort =>
              rw [if_neg hshort]
              split at h
              next hfound => rw [if_pos (hthere _ hfound)]; exact ih h
              next => contradiction

/-- A file is read where the path leads to, and a path to a file does not end with a slash. -/
theorem read_eq_ok_iff {path : String} {content : Text.Octets} :
    s.read path = .ok content ↔
      check path = .ok () ∧ namesDirectory path = false ∧
        ∃ q, s.walk (s.origin path) (names path) = .ok q ∧ s.at? q = some (.file content) := by
  unfold read locate
  cases hcheck : check path with
  | error e => simp [bind, Except.bind]
  | ok _ =>
    cases hwalk : s.walk (s.origin path) (names path) with
    | error e => simp [bind, Except.bind]
    | ok q =>
      cases hslash : namesDirectory path with
      | true => cases hat : s.at? q with
        | none => simp [bind, Except.bind, hat]
        | some e => cases e <;> simp [bind, Except.bind, hat]
      | false => cases hat : s.at? q with
        | none => simp [bind, Except.bind, hat]
        | some e => cases e <;> simp [bind, Except.bind, hat]

/-- A file that could be read still can be after a file has been written, and holds what it held or
what has been written. -/
theorem read_of_write {path input : String} {content old : Text.Octets} {s' : FileStore}
    (hwrite : s.write path content = .ok s') (hread : s.read input = .ok old) :
    s'.read input = .ok old ∨ s'.read input = .ok content := by
  obtain ⟨hset, hfree, -⟩ := set_of_write hwrite
  have hat : ∀ q, s'.at? q = if q = s.placeOf path then some (.file content) else s.at? q := by
    rw [hset]
    exact at?_set hfree
  have hdirectory : ∀ q, s.at? q = some .directory → s'.at? q = some .directory := by
    intro q hq
    have hne : q ≠ s.placeOf path := by
      rintro rfl
      exact hfree hq
    rw [hat, if_neg hne, hq]
  have hthere : ∀ q, (s.at? q).isSome = true → (s'.at? q).isSome = true := by
    intro q hq
    rw [hat]
    split
    · rfl
    · exact hq
  obtain ⟨hcheck, hslash, q, hwalk, hq⟩ := read_eq_ok_iff.mp hread
  have horigin : s'.origin input = s.origin input := by
    rw [hset]
    rfl
  have hwalk' : s'.walk (s'.origin input) (names input) = .ok q := by
    rw [horigin]
    exact walk_of_kept hdirectory hthere hwalk
  by_cases hwritten : q = s.placeOf path
  · refine .inr (read_eq_ok_iff.mpr ⟨hcheck, hslash, q, hwalk', ?_⟩)
    rw [hat, if_pos hwritten]
  · refine .inl (read_eq_ok_iff.mpr ⟨hcheck, hslash, q, hwalk', ?_⟩)
    rw [hat, if_neg hwritten, hq]

/-- What has been written lies where the path leads, whatever lay there before, and nothing else is
read there. -/
theorem content_of_write {path : String} {content : Text.Octets} {s' : FileStore}
    (h : s.write path content = .ok s') :
    s'.at? (s'.placeOf path) = some (.file content) ∧
      ∀ seen, s'.read path = .ok seen → seen = content := by
  obtain ⟨hset, hfree, -⟩ := set_of_write h
  have hplace : s'.placeOf path = s.placeOf path := by
    rw [hset]
    rfl
  have hat : s'.at? (s'.placeOf path) = some (.file content) := by
    rw [hplace, hset, at?_set hfree, if_pos rfl]
  refine ⟨hat, fun seen hseen => ?_⟩
  obtain ⟨-, -, q, hwalk, hq⟩ := read_eq_ok_iff.mp hseen
  have hend : q = s'.placeOf path := (reaches_of_walk (reaches_origin path) hwalk).2
  rw [hend, hat] at hq
  cases hq
  rfl

end SidecarAdmission.Storage.FileStore
