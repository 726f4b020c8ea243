import SchemaDocs.Platform
import SchemaDocs.Proofs.Splitting

/-!
# Following links

A reader of a document follows a link from the directory of the document: the link is parted at the separators of the
platform, `.` stays, `..` leads up, and every other segment leads down. Between places whose segments are names, the
link that is written for a target leads to that very target (`follow_relativeLink`), from above, below or beside it: it
climbs to where the two part, and goes down from there (`way_eq`).
-/

namespace SchemaDocs.Platform

/-! ## Following -/

/-- Where segments lead from a directory; none if they climb out of the root. -/
def walkTo : List String → List String → Option (List String)
  | directory, [] => some directory
  | directory, s :: rest =>
    if s = "." then walkTo directory rest
    else if s = ".." then if directory = [] then none else walkTo directory.dropLast rest
    else walkTo (directory ++ [s]) rest

/-- Where a link leads from the directory of the document that contains it. -/
def follow (p : Platform) (directory : List String) (link : String) : Option (List String) :=
  walkTo directory (Text.split p.separator link)

/-- A segment that names one step down on every platform. -/
structure IsPlain (s : String) : Prop where
  ne_empty : s ≠ ""
  ne_here : s ≠ "."
  ne_up : s ≠ ".."
  no_slash : '/' ∉ s.toList
  no_backslash : '\\' ∉ s.toList

/-- A segment that names one step down in a link of the platform. -/
structure IsName (p : Platform) (s : String) : Prop where
  ne_empty : s ≠ ""
  ne_here : s ≠ "."
  ne_up : s ≠ ".."
  no_slash : '/' ∉ s.toList
  no_separator : p.separator ∉ s.toList

theorem IsPlain.isName {s : String} (h : IsPlain s) (p : Platform) : p.IsName s :=
  ⟨h.ne_empty, h.ne_here, h.ne_up, h.no_slash, match p with
    | unix => h.no_slash
    | windows => h.no_backslash⟩

variable {p : Platform} {target start up down : List String}

theorem walkTo_down : ∀ {down directory : List String}, (∀ s ∈ down, p.IsName s) →
    walkTo directory down = some (directory ++ down)
  | [], directory, _ => by simp [walkTo]
  | s :: rest, directory, h => by
    have hs := h s List.mem_cons_self
    rw [walkTo, if_neg hs.ne_here, if_neg hs.ne_up, walkTo_down fun t ht => h t (List.mem_cons_of_mem _ ht)]
    simp

/-- As many steps up as there are segments lead back to where the segments began. -/
theorem walkTo_up (common rest : List String) : ∀ up : List String,
    walkTo (common ++ up) (List.replicate up.length ".." ++ rest) = walkTo common rest := by
  intro up
  induction h : up.length generalizing up with
  | zero =>
    rw [List.eq_nil_of_length_eq_zero h]
    simp
  | succ n ih =>
    have hne : up ≠ [] := fun e => by simp [e] at h
    have hlast : (common ++ up).dropLast = common ++ up.dropLast := List.dropLast_append_of_ne_nil hne
    have hnil : common ++ up ≠ [] := fun e => hne (List.append_eq_nil_iff.1 e).2
    have hn : up.dropLast.length = n := by simp [h]
    rw [List.replicate_succ, List.cons_append, walkTo, if_neg (by decide), if_pos rfl, if_neg hnil, hlast]
    exact ih up.dropLast hn

/-! ## The way to a target -/

/-- The longest list that both lists begin with. -/
def commonStart : List String → List String → List String
  | a :: as, b :: bs => if a = b then a :: commonStart as bs else []
  | _, _ => []

theorem commonStart_append_dropCommon : ∀ as bs : List String,
    commonStart as bs ++ (dropCommon as bs).1 = as ∧ commonStart as bs ++ (dropCommon as bs).2 = bs
  | [], _ | _ :: _, [] => ⟨rfl, rfl⟩
  | a :: as, b :: bs => by
    rw [commonStart, dropCommon]
    split
    · rename_i h
      obtain ⟨ha, hb⟩ := commonStart_append_dropCommon as bs
      exact ⟨congrArg (a :: ·) ha, by rw [List.cons_append, hb, h]⟩
    · exact ⟨rfl, rfl⟩

theorem foldl_step : ∀ {segments : List String}, (∀ s ∈ segments, p.IsName s) → ∀ place : Place,
    segments.foldl Place.step place = ⟨place.climb, place.segments ++ segments⟩
  | [], _, place => by simp
  | s :: rest, h, place => by
    have hs := h s List.mem_cons_self
    rw [List.foldl_cons, foldl_step fun t ht => h t (List.mem_cons_of_mem _ ht)]
    simp [Place.step, hs.ne_empty, hs.ne_here, hs.ne_up]

/-- Names are a place by themselves: none of them is parted, dropped or climbed. -/
theorem ofSegments_eq {segments : List String} (h : ∀ s ∈ segments, p.IsName s) :
    Place.ofSegments segments = ⟨0, segments⟩ := by
  have hsplit : ∀ {l : List String}, (∀ s ∈ l, p.IsName s) → l.flatMap (Text.split '/') = l := by
    intro l
    induction l with
    | nil => intro _; rfl
    | cons s rest ih =>
      intro h
      rw [List.flatMap_cons, Text.split_of_not_mem (h s List.mem_cons_self).no_slash,
        ih fun t ht => h t (List.mem_cons_of_mem _ ht)]
      rfl
  rw [Place.ofSegments, hsplit h, foldl_step h]
  simp

/-- As many steps up as lead from `start` to where the two lists part, and then the rest of `target`. -/
def steps (target start : List String) : List String :=
  List.replicate (dropCommon target start).2.length ".." ++ (dropCommon target start).1

/-- The way between names climbs to where they part and goes down from there. -/
theorem way_eq (ht : ∀ s ∈ target, p.IsName s) (hs : ∀ s ∈ start, p.IsName s) :
    way (Place.ofSegments target) (Place.ofSegments start) =
      if (steps target start).isEmpty then ["."] else steps target start := by
  rw [ofSegments_eq ht, ofSegments_eq hs]
  simp only [way, steps, ↓reduceIte, Nat.sub_self, Nat.zero_add]
  rfl

theorem mem_steps {s : String} (h : s ∈ steps target start) : s = ".." ∨ s ∈ target := by
  rcases List.mem_append.1 h with h | h
  · exact .inl (List.eq_of_mem_replicate h)
  · rw [← (commonStart_append_dropCommon target start).1]
    exact .inr (List.mem_append_right _ h)

/-- No step leaves the place that is already there. -/
theorem eq_of_steps_eq_nil (h : steps target start = []) : target = start := by
  rw [steps, List.append_eq_nil_iff, List.replicate_eq_nil_iff, List.length_eq_zero_iff] at h
  have hcommon := commonStart_append_dropCommon target start
  rw [h.1, h.2] at hcommon
  exact hcommon.1.symm.trans hcommon.2

theorem joinPath_split (p : Platform) {segments : List String} (hne : segments ≠ [])
    (h : ∀ s ∈ segments, s ≠ "" ∧ p.separator ∉ s.toList) :
    Text.split p.separator (p.joinPath segments) = segments := by
  have hfilter : segments.filter (fun s => !s.isEmpty) = segments :=
    List.filter_eq_self.2 fun s hs => by simpa [String.isEmpty_iff] using (h s hs).1
  rw [joinPath, hfilter]
  exact Text.split_join hne fun s hs => (h s hs).2

/-- The segments of the link between names. -/
theorem split_relativeLink (ht : ∀ s ∈ target, p.IsName s) (hs : ∀ s ∈ start, p.IsName s) :
    Text.split p.separator (p.relativeLink target start) =
      if (steps target start).isEmpty then ["."] else steps target start := by
  rw [relativeLink, way_eq ht hs]
  split
  · cases p <;> decide
  · rename_i hne
    refine joinPath_split p (fun h => hne (List.isEmpty_iff.2 h)) fun s hs => ?_
    rcases mem_steps hs with rfl | hs
    · cases p <;> decide
    · exact ⟨(ht s hs).ne_empty, (ht s hs).no_separator⟩

/-- **A link leads to the target that it was written for.** -/
theorem follow_relativeLink (ht : ∀ s ∈ target, p.IsName s) (hs : ∀ s ∈ start, p.IsName s) :
    p.follow start (p.relativeLink target start) = some target := by
  rw [follow, split_relativeLink ht hs]
  split
  · rename_i h
    rw [eq_of_steps_eq_nil (List.isEmpty_iff.1 h)]
    rfl
  · obtain ⟨htarget, hstart⟩ := commonStart_append_dropCommon target start
    have hdown : ∀ s ∈ (dropCommon target start).1, p.IsName s := fun s h =>
      ht s (htarget ▸ List.mem_append_right _ h)
    have hup := walkTo_up (commonStart target start) (dropCommon target start).1 (dropCommon target start).2
    rw [hstart] at hup
    rw [steps, hup, walkTo_down hdown, htarget]

/-- A link that goes straight down leads down. -/
theorem follow_joinPath {directory segments : List String} (hne : segments ≠ [])
    (h : ∀ s ∈ segments, p.IsName s) : p.follow directory (p.joinPath segments) = some (directory ++ segments) := by
  rw [follow, joinPath_split p hne fun s hs => ⟨(h s hs).ne_empty, (h s hs).no_separator⟩, walkTo_down h]

end SchemaDocs.Platform
