import SchemaDocs.Proofs.Links

/-!
# Links as relative paths

A link can also be made with the file system in mind: both places are written as paths that begin at the current
directory, made absolute and brought into normal form, and what the two have in common at their start is dropped
(`Platform.linkFrom`). The current directory is part of what they have in common, so it makes no difference which one
it is, and the link is the same one as without any (`linkFrom_eq`).
-/

namespace SchemaDocs

/-! ## Paths with a current directory -/

namespace PathText

def isAbsolute (path : String) : Bool := path.toList.head? = some '/'

def joined (directory path : String) : String :=
  if isAbsolute path then path
  else if directory.isEmpty || directory.toList.getLast? = some '/' then directory ++ path
  else directory ++ "/" ++ path

/-- The slashes at the front of a path in normal form: exactly two of them are kept. -/
def leading (path : String) : String :=
  match (path.toList.takeWhile (· == '/')).length with
  | 0 => ""
  | 2 => "//"
  | _ => "/"

/-- The segments of a normal form after one more segment. A step up takes the last segment off, and is kept where there
is nothing to take off, except at the root. -/
def step (absolute : Bool) (segments : List String) (segment : String) : List String :=
  if segment = "" || segment = "." then segments
  else if segment ≠ ".." || !absolute && segments.isEmpty || segments.getLast? = some ".." then segments ++ [segment]
  else segments.dropLast

/-- The segments of a path that are left when `.` and the steps up have been taken. -/
def kept (path : String) : List String := (Text.split '/' path).foldl (step (isAbsolute path)) []

def normal (path : String) : String :=
  let text := leading path ++ Text.join "/" (kept path)
  if text.isEmpty then "." else text

/-- The segments of a path that are not empty. -/
def segments (path : String) : List String := (Text.split '/' path).filter fun segment => !segment.isEmpty

/-- The path to a place as seen from another one, both given by paths as seen from the current directory. -/
def relative (directory path start : String) : String :=
  let down := segments (normal (joined directory path))
  let up := segments (normal (joined directory start))
  let common := (Platform.commonStart down up).length
  let way := List.replicate (up.length - common) ".." ++ down.drop common
  if way.isEmpty then "." else Text.join "/" way

end PathText

namespace Platform

/-- The path of a place below the current directory. -/
def placePath (segments : List String) : String := Text.join "/" ("." :: segments)

/-- The link to the file `target` from a document in the directory `start`, made in a current directory. -/
def linkFrom (p : Platform) (directory : String) (target start : List String) : String :=
  p.joinPath (Text.split '/' (PathText.relative directory (placePath target) (placePath start)))

end Platform

/-! ## Normal forms -/

namespace Text

theorem splitList_append (sep : Char) (cs ds : List Char) :
    splitList sep (cs ++ sep :: ds) = splitList sep cs ++ splitList sep ds := by
  induction cs with
  | nil => simp [splitList]
  | cons c rest ih =>
    by_cases hc : c = sep
    · simp [splitList, hc, ih]
    · obtain ⟨piece, pieces, hs⟩ := List.exists_cons_of_ne_nil (splitList_ne_nil sep rest)
      rw [hs, List.cons_append] at ih
      rw [List.cons_append, splitList_cons_of_ne hc ih, splitList_cons_of_ne hc hs, List.cons_append]

theorem split_append (sep : Char) (s t : String) :
    split sep (s ++ String.singleton sep ++ t) = split sep s ++ split sep t := by
  simp [split, String.toList_append, splitList_append]

end Text

namespace PathText

variable {p : Platform} {directory path s : String} {segments : List String}

/-- The segments of the normal form of a current directory. -/
def base (directory : String) : List String := (Text.split '/' directory).foldl (step true) []

theorem foldl_step_names : ∀ {segments : List String}, (∀ s ∈ segments, p.IsName s) → ∀ front : List String,
    segments.foldl (step true) front = front ++ segments
  | [], _, front => by simp
  | s :: rest, h, front => by
    have hs := h s List.mem_cons_self
    rw [List.foldl_cons, foldl_step_names fun t ht => h t (List.mem_cons_of_mem _ ht)]
    simp [step, hs.ne_empty, hs.ne_here, hs.ne_up]

theorem mem_step {absolute : Bool} {front : List String} {segment : String} (h : s ∈ step absolute front segment) :
    s ∈ front ∨ s = segment ∧ s ≠ "" := by
  rw [step] at h
  split at h
  · exact .inl h
  · rename_i hne
    split at h
    · rcases List.mem_append.1 h with h | h
      · exact .inl h
      · obtain rfl := List.mem_singleton.1 h
        exact .inr ⟨rfl, fun he => hne (by simp [he])⟩
    · exact .inl (List.dropLast_subset _ h)

/-- What is kept of the segments of a path are segments that are not empty. -/
theorem mem_foldl_step {absolute : Bool} {front : List String} (h : s ∈ segments.foldl (step absolute) front) :
    s ∈ front ∨ s ∈ segments ∧ s ≠ "" := by
  induction segments generalizing front with
  | nil => exact .inl h
  | cons segment rest ih =>
    rcases ih h with h | ⟨hm, hne⟩
    · rcases mem_step h with h | ⟨rfl, hne⟩
      · exact .inl h
      · exact .inr ⟨List.mem_cons_self, hne⟩
    · exact .inr ⟨List.mem_cons_of_mem _ hm, hne⟩

theorem leading_of_isAbsolute (h : isAbsolute path = true) : leading path = "/" ∨ leading path = "//" := by
  have hlength : (path.toList.takeWhile (· == '/')).length ≠ 0 := by
    rw [isAbsolute, decide_eq_true_eq] at h
    obtain ⟨cs, hcs⟩ := List.head?_eq_some_iff.1 h
    simp [hcs]
  rw [leading]
  split
  · rename_i h0
    exact absurd h0 hlength
  · exact .inr rfl
  · exact .inl rfl

theorem isAbsolute_append (h : isAbsolute directory = true) (s : String) : isAbsolute (directory ++ s) = true := by
  rw [isAbsolute, decide_eq_true_eq] at h ⊢
  rw [String.toList_append, List.head?_append, h, Option.some_or]

/-- A slash at the end of a path makes no difference. -/
theorem base_slash (s : String) : base (s ++ "/") = base s := by
  have hsplit := Text.split_append '/' s ""
  rw [String.append_empty] at hsplit
  rw [base, base, show "/" = String.singleton '/' from rfl, hsplit, List.foldl_append]
  rfl

/-- A path that is not absolute leads on from the current directory. -/
theorem base_joined (h : isAbsolute directory = true) (hpath : isAbsolute path = false) :
    isAbsolute (joined directory path) = true ∧
      base (joined directory path) = (Text.split '/' path).foldl (step true) (base directory) := by
  have hslash : ∀ s : String, base (s ++ "/" ++ path) = (Text.split '/' path).foldl (step true) (base s) := fun s => by
    rw [base, show "/" = String.singleton '/' from rfl, Text.split_append, List.foldl_append]
    rfl
  have hempty : directory.isEmpty = false := by
    rw [Bool.eq_false_iff, Ne, String.isEmpty_iff]
    rintro rfl
    cases h
  rw [joined, hpath, hempty]
  simp only [Bool.false_eq_true, ↓reduceIte, Bool.false_or, decide_eq_true_eq]
  split
  · rename_i hlast
    obtain ⟨cs, hcs⟩ := List.getLast?_eq_some_iff.1 hlast
    obtain rfl : directory = String.ofList cs ++ "/" := String.toList_inj.1 (by simp [hcs, String.toList_append])
    exact ⟨isAbsolute_append h _, by rw [hslash, base_slash]⟩
  · exact ⟨isAbsolute_append (isAbsolute_append h _) _, hslash directory⟩

/-- The normal form of an absolute path has the segments that are kept of it. -/
theorem segments_normal (h : isAbsolute path = true) : PathText.segments (normal path) = base path := by
  have hkept : ∀ s ∈ base path, s ≠ "" ∧ '/' ∉ s.toList := by
    intro s hs
    rcases mem_foldl_step hs with hs | ⟨hs, hne⟩
    · cases hs
    · exact ⟨hne, Text.not_mem_of_mem_split hs⟩
  have hsegments : PathText.segments (Text.join "/" (base path)) = base path := by
    rw [PathText.segments]
    by_cases hnil : base path = []
    · rw [hnil]
      rfl
    · rw [show "/" = String.singleton '/' from rfl, Text.split_join hnil fun s hs => (hkept s hs).2]
      exact List.filter_eq_self.2 fun s hs => by simpa [String.isEmpty_iff] using (hkept s hs).1
  -- the slashes at the front part off nothing but empty segments
  have hslash : ∀ s : String, PathText.segments ("/" ++ s) = PathText.segments s := fun s => by
    have hsplit := Text.split_append '/' "" s
    rw [String.empty_append] at hsplit
    rw [PathText.segments, show "/" = String.singleton '/' from rfl, hsplit]
    rfl
  have hne : ∀ s : String, ("/" ++ s).isEmpty = false := fun s => by
    rw [Bool.eq_false_iff, Ne, String.isEmpty_iff, String.append_eq_empty_iff]
    simp
  have hbase : kept path = base path := by rw [kept, h, base]
  simp only [normal, hbase]
  rcases leading_of_isAbsolute h with hl | hl
  · rw [hl, hne, if_neg (by simp), hslash, hsegments]
  · rw [hl, show "//" = "/" ++ "/" from rfl, String.append_assoc, hne, if_neg (by simp), hslash, hslash, hsegments]

end PathText

/-! ## Links -/

namespace Platform

variable {p : Platform} {target start : List String} {directory : String}

theorem commonStart_append (front as bs : List String) :
    commonStart (front ++ as) (front ++ bs) = front ++ commonStart as bs := by
  induction front with
  | nil => rfl
  | cons a rest ih => rw [List.cons_append, List.cons_append, commonStart, if_pos rfl, ih, List.cons_append]

theorem steps_eq (target start : List String) : steps target start =
    List.replicate (start.length - (commonStart target start).length) ".." ++
      target.drop (commonStart target start).length := by
  have hcommon := commonStart_append_dropCommon target start
  have hup : start.drop (commonStart target start).length = (dropCommon target start).2 := by
    conv => enter [1, 2]; rw [← hcommon.2]
    exact List.drop_left
  have hdown : target.drop (commonStart target start).length = (dropCommon target start).1 := by
    conv => enter [1, 2]; rw [← hcommon.1]
    exact List.drop_left
  rw [steps, ← hup, ← hdown, List.length_drop]

/-- The segments of the path of a place, from the current directory on. -/
theorem segments_placePath (h : PathText.isAbsolute directory = true) {segments : List String}
    (hs : ∀ s ∈ segments, p.IsName s) :
    PathText.segments (PathText.normal (PathText.joined directory (placePath segments))) =
      PathText.base directory ++ segments := by
  have hnames : ∀ s ∈ "." :: segments, '/' ∉ s.toList := by
    intro s hm
    rcases List.mem_cons.1 hm with rfl | hm
    · decide
    · exact (hs s hm).no_slash
  have hrelative : PathText.isAbsolute (placePath segments) = false := by
    cases segments with
    | nil => decide
    | cons s rest => simp [PathText.isAbsolute, placePath, Text.join, String.toList_append]
  obtain ⟨habsolute, hbase⟩ := PathText.base_joined h hrelative
  rw [PathText.segments_normal habsolute, hbase, placePath, show "/" = String.singleton '/' from rfl,
    Text.split_join (List.cons_ne_nil _ _) hnames, List.foldl_cons]
  exact PathText.foldl_step_names hs _

/-- **A link does not depend on the current directory.** -/
theorem linkFrom_eq (h : PathText.isAbsolute directory = true) (ht : ∀ s ∈ target, p.IsName s)
    (hs : ∀ s ∈ start, p.IsName s) : p.linkFrom directory target start = p.relativeLink target start := by
  have hsteps : List.replicate ((PathText.base directory ++ start).length -
      (PathText.base directory ++ commonStart target start).length) ".." ++
        (PathText.base directory ++ target).drop (PathText.base directory ++ commonStart target start).length =
      steps target start := by
    rw [List.length_append, List.length_append, Nat.add_sub_add_left, List.drop_length_add_append, steps_eq]
  have hslash : ∀ s ∈ steps target start, '/' ∉ s.toList := by
    intro s hm
    rcases mem_steps hm with rfl | hm
    · decide
    · exact (ht s hm).no_slash
  rw [linkFrom, relativeLink, way_eq ht hs, PathText.relative, segments_placePath h ht, segments_placePath h hs,
    commonStart_append]
  simp only [hsteps]
  split
  · rfl
  · rename_i hne
    rw [show "/" = String.singleton '/' from rfl, Text.split_join (fun h => hne (List.isEmpty_iff.2 h)) hslash]

/-- The list is the longest one that both lists begin with. -/
structure IsLongestStart (common as bs : List String) : Prop where
  left : common <+: as
  right : common <+: bs
  longest : ∀ {l}, l <+: as → l <+: bs → l.length ≤ common.length

theorem isLongestStart_commonStart : ∀ as bs : List String, IsLongestStart (commonStart as bs) as bs
  | [], _ => ⟨List.nil_prefix, List.nil_prefix, fun h _ => h.length_le⟩
  | _ :: _, [] => ⟨List.nil_prefix, List.nil_prefix, fun _ h => h.length_le⟩
  | a :: as, b :: bs => by
    rw [commonStart]
    split
    · rename_i hab
      subst hab
      have ih := isLongestStart_commonStart as bs
      refine ⟨List.cons_prefix_cons.2 ⟨rfl, ih.left⟩, List.cons_prefix_cons.2 ⟨rfl, ih.right⟩, fun {l} ha hb => ?_⟩
      cases l with
      | nil => exact Nat.zero_le _
      | cons c l =>
        exact Nat.succ_le_succ (ih.longest (List.cons_prefix_cons.1 ha).2 (List.cons_prefix_cons.1 hb).2)
    · rename_i hab
      refine ⟨List.nil_prefix, List.nil_prefix, fun {l} ha hb => ?_⟩
      cases l with
      | nil => exact Nat.le_refl _
      | cons c l => exact absurd ((List.cons_prefix_cons.1 ha).1.symm.trans (List.cons_prefix_cons.1 hb).1) hab

/-- What a link between places is like: it leads to the target without ever climbing out of the root, its steps up stand
in front, as many as the start has segments below the longest common start, and the current directory makes no
difference. -/
structure Direct (p : Platform) (target start : List String) : Prop where
  leads : p.follow start (p.relativeLink target start) = some target
  climbs : ∃ common down, IsLongestStart common target start ∧ ".." ∉ down ∧
    Text.split p.separator (p.relativeLink target start) =
      List.replicate (start.length - common.length) ".." ++ down
  anywhere : ∀ {directory}, PathText.isAbsolute directory = true →
    p.linkFrom directory target start = p.relativeLink target start

/-- **The link between two places is direct**, whichever names lead to them. -/
theorem direct_of_names (p : Platform) {target start : List String} (ht : ∀ s ∈ target, p.IsName s)
    (hs : ∀ s ∈ start, p.IsName s) : p.Direct target start where
  leads := follow_relativeLink ht hs
  climbs := by
    refine ⟨commonStart target start, ?_⟩
    have hlongest := isLongestStart_commonStart target start
    rw [split_relativeLink ht hs]
    split
    · rename_i hnil
      obtain rfl := eq_of_steps_eq_nil (List.isEmpty_iff.1 hnil)
      have hlength : target.length ≤ (commonStart target target).length :=
        hlongest.longest (List.prefix_refl _) (List.prefix_refl _)
      exact ⟨["."], hlongest, by decide, by rw [Nat.sub_eq_zero_of_le hlength, List.replicate_zero, List.nil_append]⟩
    · refine ⟨_, hlongest, fun hm => ?_, steps_eq target start⟩
      exact (ht _ (List.mem_of_mem_drop hm)).ne_up rfl
  anywhere := fun h => linkFrom_eq h ht hs

/-- From one package to the document of a schema in another one. -/
theorem direct_of_siblings : (∀ s ∈ ["models", "doc_A.md"], windows.IsName s) ∧
    (∀ s ∈ ["models", "sub"], windows.IsName s) ∧ windows.Direct ["models", "doc_A.md"] ["models", "sub"] := by
  have ht : ∀ s ∈ ["models", "doc_A.md"], windows.IsName s := by
    simp only [List.forall_mem_cons]
    refine ⟨?_, ?_, by simp⟩ <;> constructor <;> decide
  have hs : ∀ s ∈ ["models", "sub"], windows.IsName s := by
    simp only [List.forall_mem_cons]
    refine ⟨?_, ?_, by simp⟩ <;> constructor <;> decide
  exact ⟨ht, hs, direct_of_names windows ht hs⟩

end Platform

end SchemaDocs
