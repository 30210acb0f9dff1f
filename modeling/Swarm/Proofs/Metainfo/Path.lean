/-
# Paths stay below the directory

The path of a file is made of components that have been checked one by one.  What is checked is
enough for the path as a whole, wherever it is joined to:

* `Path.place_push`: a path that does not begin at the root goes on from the directory it is
  joined to;
* `foldl_push_eq_joinPath`: so no component takes the place of those before it;
* `splitOn_joinPath`: and the components can be told from the path;
* `staysBelow_joinPath`: each of them is a step down;
* `paths_stay_below`: all of this holds of the name and of every file of a metainfo that is read.

Where a path leads is told by its parts alone; no directory is looked at.
-/
import Mathlib.Data.List.Infix
import Swarm.Proofs.Metainfo.Layout

namespace Swarm.Metainfo

open Bencode
open Swarm.Field (find?)
open List (Forall₂)

/-! ## 1. Where a path leads -/

namespace Path

/-- The path begins at the root. -/
def IsRooted (path : String) : Prop := path.toList.head? = some '/'

instance (path : String) : Decidable (IsRooted path) :=
  inferInstanceAs (Decidable (path.toList.head? = some '/'))

/-- Nothing has to come between the directory and what is joined to it. -/
def IsOpen (dir : String) : Prop := dir = "" ∨ dir.toList.getLast? = some '/'

instance (dir : String) : Decidable (IsOpen dir) :=
  inferInstanceAs (Decidable (dir = "" ∨ dir.toList.getLast? = some '/'))

/-- A path joined to a directory.  If it begins at the root, it takes the place of the directory;
else a slash comes between them, unless nothing or a slash stands before it. -/
def push (dir path : String) : String :=
  if IsRooted path then path
  else if IsOpen dir then dir ++ path
  else dir ++ "/" ++ path

/-- What stands between the slashes of a path. -/
def parts (path : String) : List String := (path.toList.splitOn '/').map String.ofList

/-- A step from a place, which is told by the names that lead there from the root. -/
def step (place : List String) (part : String) : List String :=
  if part = "" ∨ part = "." then place
  else if part = ".." then place.dropLast
  else place ++ [part]

/-- The place at which a path begins, for one who stands at `here`. -/
def start (here : List String) (path : String) : List String := if IsRooted path then [] else here

/-- The place to which a path leads. -/
def place (here : List String) (path : String) : List String :=
  (parts path).foldl step (start here path)

/-- The places on the way, with the first and the last of them. -/
def way (here : List String) (path : String) : List (List String) :=
  (parts path).scanl step (start here path)

/-! ## 2. Joining -/

theorem parts_of_slash {path front back : String}
    (h : path.toList = front.toList ++ '/' :: back.toList) :
    parts path = parts front ++ parts back := by
  rw [parts, h, List.splitOn_append_cons_self, List.map_append, parts, parts]

theorem parts_empty : parts "" = [""] := rfl

theorem foldl_step_empty (here : List String) : [""].foldl step here = here := rfl

/-- **A path that is joined to a directory goes on from there.**  Before its parts stand some that
lead where those of the directory do. -/
theorem parts_push {path : String} (h : ¬ IsRooted path) (dir : String) :
    ∃ front, parts (push dir path) = front ++ parts path ∧
      ∀ here : List String, front.foldl step here = (parts dir).foldl step here := by
  rw [push, if_neg h]
  split
  · rename_i hopen
    rcases hopen with rfl | hslash
    · exact ⟨[], by rw [String.empty_append, List.nil_append], fun here => rfl⟩
    · obtain ⟨front, hfront⟩ := List.getLast?_eq_some_iff.mp hslash
      refine ⟨parts (String.ofList front), parts_of_slash ?_, fun here => ?_⟩
      · rw [String.toList_append, hfront, String.toList_ofList, List.append_assoc,
          List.singleton_append]
      · -- the slash at the end of the directory is followed by an empty part
        have hdir : parts dir = parts (String.ofList front) ++ parts "" :=
          parts_of_slash (by rw [hfront, String.toList_ofList, String.toList_empty])
        rw [hdir, List.foldl_append, parts_empty, foldl_step_empty]
  · refine ⟨parts dir, parts_of_slash ?_, fun here => rfl⟩
    simp only [String.toList_append, List.append_assoc]
    rfl

theorem isRooted_push_iff {path : String} (h : ¬ IsRooted path) (dir : String) :
    IsRooted (push dir path) ↔ IsRooted dir := by
  rw [push, if_neg h]
  by_cases hdir : dir = ""
  · subst hdir
    exact iff_of_false h (by decide)
  · have hne : dir.toList ≠ [] := fun hnil => hdir (String.toList_eq_nil_iff.mp hnil)
    split
    · rw [IsRooted, String.toList_append, List.head?_append_of_ne_nil _ hne, IsRooted]
    · rw [IsRooted, String.append_assoc, String.toList_append, List.head?_append_of_ne_nil _ hne,
        IsRooted]

theorem start_push {path : String} (h : ¬ IsRooted path) (here : List String) (dir : String) :
    start here (push dir path) = start here dir := by
  simp only [start, isRooted_push_iff h]

/-- What is passed from the end of some steps on is passed on the whole way. -/
theorem scanl_suffix (xs ys : List String) : ∀ here : List String,
    (ys.scanl step (xs.foldl step here)) <:+ (xs ++ ys).scanl step here := by
  induction xs with
  | nil => exact fun here => List.suffix_refl _
  | cons x xs ih =>
    intro here
    rw [List.foldl_cons, List.cons_append, List.scanl_cons]
    exact (ih _).trans (List.suffix_cons _ _)

/-- **Where a path leads that is joined to a directory**: where its parts lead from there, -/
theorem place_push {path : String} (h : ¬ IsRooted path) (here : List String) (dir : String) :
    place here (push dir path) = (parts path).foldl step (place here dir) := by
  obtain ⟨front, hparts, hfront⟩ := parts_push h dir
  rw [place, hparts, start_push h, List.foldl_append, hfront, place]

/-- and the last places on the way are those that its parts pass from there. -/
theorem way_push {path : String} (h : ¬ IsRooted path) (here : List String) (dir : String) :
    (parts path).scanl step (place here dir) <:+ way here (push dir path) := by
  obtain ⟨front, hparts, hfront⟩ := parts_push h dir
  rw [way, hparts, start_push h, place, ← hfront]
  exact scanl_suffix front (parts path) _

end Path

/-! ## 3. Components -/

section

open Swarm.Metainfo.Path

namespace IsComponent

variable {c : String}

theorem slash_notMem (h : IsComponent c) : '/' ∉ c.toList := fun hmem => (h.free '/' hmem).1 rfl

theorem not_isRooted (h : IsComponent c) : ¬ IsRooted c :=
  fun hroot => h.slash_notMem (List.mem_of_head? hroot)

theorem not_isOpen (h : IsComponent c) : ¬ IsOpen c := by
  rintro (hempty | hslash)
  · exact h.ne_empty hempty
  · exact h.slash_notMem (List.mem_of_getLast? hslash)

/-- A component is a step down. -/
theorem step_eq (h : IsComponent c) (here : List String) : step here c = here ++ [c] := by
  rw [step, if_neg (not_or.mpr ⟨h.ne_empty, h.ne_dot⟩), if_neg h.ne_dots]

theorem push_eq (h : IsComponent c) {dir : String} (hdir : ¬ IsOpen dir) :
    push dir c = dir ++ "/" ++ c := by
  rw [push, if_neg h.not_isRooted, if_neg hdir]

/-- Nothing that ends in a component lets the next one follow at once. -/
theorem not_isOpen_append (h : IsComponent c) (front : String) : ¬ IsOpen (front ++ c) := by
  have hne : c.toList ≠ [] := fun hnil => h.ne_empty (String.toList_eq_nil_iff.mp hnil)
  rintro (hempty | hslash)
  · exact h.ne_empty (String.append_eq_empty_iff.mp hempty).2
  · rw [String.toList_append, List.getLast?_append_of_ne_nil _ hne] at hslash
    exact h.slash_notMem (List.mem_of_getLast? hslash)

end IsComponent

variable {cs : List String}

/-- Components lead down one after another, -/
theorem foldl_step_eq_append : ∀ {cs : List String}, (∀ c ∈ cs, IsComponent c) →
    ∀ here : List String, cs.foldl step here = here ++ cs
  | [], _, here => (List.append_nil here).symm
  | c :: cs, h, here => by
    obtain ⟨hc, hcs⟩ := List.forall_mem_cons.mp h
    rw [List.foldl_cons, hc.step_eq, foldl_step_eq_append hcs, List.append_assoc,
      List.singleton_append]

/-- and the places on the way are those to which the beginnings of their list lead. -/
theorem scanl_step_eq_inits : ∀ {cs : List String}, (∀ c ∈ cs, IsComponent c) →
    ∀ here : List String, cs.scanl step here = cs.inits.map (here ++ ·)
  | [], _, here => by rw [List.scanl_nil, List.inits, List.map_singleton, List.append_nil]
  | c :: cs, h, here => by
    obtain ⟨hc, hcs⟩ := List.forall_mem_cons.mp h
    rw [List.scanl_cons, hc.step_eq, scanl_step_eq_inits hcs, List.inits_cons, List.map_cons,
      List.append_nil, List.map_map]
    simp only [Function.comp_def, List.append_assoc, List.singleton_append]

theorem foldl_push_eq_intercalate : ∀ {cs : List String}, (∀ c ∈ cs, IsComponent c) →
    ∀ {dir : String}, ¬ IsOpen dir → cs.foldl push dir = "/".intercalate (dir :: cs)
  | [], _, dir, _ => String.intercalate_singleton.symm
  | c :: cs, h, dir, hdir => by
    obtain ⟨hc, hcs⟩ := List.forall_mem_cons.mp h
    rw [List.foldl_cons, hc.push_eq hdir, foldl_push_eq_intercalate hcs (hc.not_isOpen_append _),
      String.intercalate_cons_append, String.intercalate_cons_cons]

/-- **Joined one to another, components make the path.** -/
theorem foldl_push_eq_joinPath (h : ∀ c ∈ cs, IsComponent c) : cs.foldl push "" = joinPath cs := by
  cases cs with
  | nil => rfl
  | cons c cs =>
    obtain ⟨hc, hcs⟩ := List.forall_mem_cons.mp h
    have hfirst : push "" c = c := by
      rw [push, if_neg hc.not_isRooted, if_pos (.inl rfl), String.empty_append]
    rw [List.foldl_cons, hfirst, foldl_push_eq_intercalate hcs hc.not_isOpen, joinPath]

/-- **Components can be told from the path they make.** -/
theorem splitOn_joinPath (hne : cs ≠ []) (h : ∀ c ∈ cs, IsComponent c) :
    (joinPath cs).toList.splitOn '/' = cs.map String.toList := by
  have hfree : ∀ l ∈ cs.map String.toList, '/' ∉ l := by
    intro l hl
    obtain ⟨c, hc, rfl⟩ := List.mem_map.mp hl
    exact (h c hc).slash_notMem
  rw [joinPath, String.toList_intercalate]
  exact List.splitOn_intercalate '/' hfree (List.map_eq_nil_iff.not.mpr hne)

theorem parts_joinPath (hne : cs ≠ []) (h : ∀ c ∈ cs, IsComponent c) :
    parts (joinPath cs) = cs := by
  rw [parts, splitOn_joinPath hne h, List.map_map]
  exact List.map_id'' (fun c => String.ofList_toList) cs

theorem not_isRooted_joinPath (hne : cs ≠ []) (h : ∀ c ∈ cs, IsComponent c) :
    ¬ IsRooted (joinPath cs) := by
  intro hroot
  obtain ⟨back, hback⟩ := List.head?_eq_some_iff.mp hroot
  -- the part before the slash of the root would be an empty component
  have hparts : parts (joinPath cs) = parts "" ++ parts (String.ofList back) :=
    parts_of_slash (by rw [hback, String.toList_empty, String.toList_ofList, List.nil_append])
  rw [parts_joinPath hne h, parts_empty, List.singleton_append] at hparts
  exact (h "" (hparts ▸ List.mem_cons_self)).ne_empty rfl

/-- None of them is left out where paths are compared. -/
theorem components_joinPath (hne : cs ≠ []) (h : ∀ c ∈ cs, IsComponent c) :
    File.components (joinPath cs) = cs.map String.toList := by
  rw [File.components, splitOn_joinPath hne h, List.filter_eq_self]
  intro l hl
  obtain ⟨c, hc, rfl⟩ := List.mem_map.mp hl
  rw [decide_eq_true_iff]
  exact ⟨fun hnil => (h c hc).ne_empty (String.toList_inj.mp hnil),
    fun hdot => (h c hc).ne_dot (String.toList_inj.mp hdot)⟩

/-- The last one is the name of the file. -/
theorem name?_eq_getLast? {f : File} (hpath : f.path = joinPath cs) (hne : cs ≠ [])
    (h : ∀ c ∈ cs, IsComponent c) : f.name? = cs.getLast? := by
  have hlast := List.getLast?_eq_some_getLast hne
  have hdots : (cs.getLast hne).toList ≠ ['.', '.'] := fun hdots =>
    (h _ (List.getLast_mem hne)).ne_dots (String.toList_inj.mp hdots)
  rw [File.name?, hpath, components_joinPath hne h, List.getLast?_map, hlast]
  simp only [Option.map_some, if_neg hdots, String.ofList_toList]

end

/-! ## 4. Paths of a metainfo -/

/-- **The path is that of these components and stays below every directory it is joined to.**  Its
parts are the components, each of which is fit for one.  So it begins at no root, leads down from
the directory by all of them, and is at no time above the place where that is. -/
structure StaysBelow (path : String) (components : List String) : Prop where
  parts : Path.parts path = components
  fit : components ≠ [] ∧ ∀ c ∈ components, IsComponent c
  /-- Joined one to another, the components make the path. -/
  pushed : components.foldl Path.push "" = path
  relative : ¬ Path.IsRooted path
  below : ∀ here dir, Path.place here (Path.push dir path) = Path.place here dir ++ components
  /-- The places on the way from the directory on are below it. -/
  down : ∀ here dir, (components.inits.map (Path.place here dir ++ ·)) <:+
    Path.way here (Path.push dir path)
  name : ∀ f : File, f.path = path → f.name? = components.getLast?

theorem staysBelow_joinPath {cs : List String} (hne : cs ≠ []) (h : ∀ c ∈ cs, IsComponent c) :
    StaysBelow (joinPath cs) cs where
  parts := parts_joinPath hne h
  fit := ⟨hne, h⟩
  pushed := foldl_push_eq_joinPath h
  relative := not_isRooted_joinPath hne h
  below here dir := by
    rw [Path.place_push (not_isRooted_joinPath hne h), parts_joinPath hne h, foldl_step_eq_append h]
  down here dir := by
    have hway := Path.way_push (not_isRooted_joinPath hne h) here dir
    rwa [parts_joinPath hne h, scanl_step_eq_inits h] at hway
  name f hf := name?_eq_getLast? hf hne h

/-- A single component is a path. -/
theorem IsComponent.staysBelow {name : String} (h : IsComponent name) : StaysBelow name [name] :=
  staysBelow_joinPath (List.cons_ne_nil name []) (List.forall_mem_singleton.mpr h)

/-- The components of each file, as the `info` dictionary has them: those of the `path` of its
entry, or the name if there is no list of files. -/
inductive PathsIn (info : Dictionary Value) (name : String) : List (List String) → Prop
  | single (hfiles : find? info "files" = none) : PathsIn info name [[name]]
  | listed {vs : List Value} {paths : List (List String)}
    (hfiles : find? info "files" = some (.list vs))
    (hpaths : Forall₂ (fun v cs => ∃ d, v = .dictionary d ∧ find? d "path" = some (textList cs))
      vs paths) : PathsIn info name paths

/-- **The name and the paths of the files stay below the directory**, and files whose paths are
equal have the same components. -/
structure PathsBelow (info : Dictionary Value) (m : Metainfo) : Prop where
  name : find? info "name" = some (.text m.name) ∧ StaysBelow m.name [m.name]
  files : ∃ paths, PathsIn info m.name paths ∧
    Forall₂ (fun f cs => StaysBelow f.path cs) m.files paths ∧
    ∀ e ∈ m.files.zip paths, ∀ e' ∈ m.files.zip paths,
      File.components e.1.path = File.components e'.1.path → e.2 = e'.2

/-- Equal paths are of equal components. -/
theorem StaysBelow.components_inj {path path' : String} {cs cs' : List String}
    (h : StaysBelow path cs) (h' : StaysBelow path' cs')
    (heq : File.components path = File.components path') : cs = cs' := by
  rw [← h.pushed, ← h'.pushed, foldl_push_eq_joinPath h.fit.2, foldl_push_eq_joinPath h'.fit.2,
    components_joinPath h.fit.1 h.fit.2, components_joinPath h'.fit.1 h'.fit.2] at heq
  exact List.map_injective_iff.mpr (fun _ _ => String.toList_inj.mp) heq

/-- The files of a list have the paths of its entries. -/
theorem forall₂_layOut : ∀ {vs : List Value} {es : List Entry} {index offset : Nat},
    Forall₂ EntryIn vs es →
      Forall₂ (fun f cs => StaysBelow f.path cs) (layOut index offset es) (es.map Entry.path)
  | _, [], _, _, _ => .nil
  | _, e :: es, _, _, .cons he hes => by
    obtain ⟨d, -, -, -, hne, hfit⟩ := he
    exact .cons (staysBelow_joinPath hne hfit) (forall₂_layOut hes)

theorem ContentIn.exists_paths {info : Dictionary Value} {name : String} {files : List File}
    {total : Count} {isMultiFile : Bool} (h : ContentIn info name files total isMultiFile)
    (hname : IsComponent name) : ∃ paths, PathsIn info name paths ∧
      Forall₂ (fun f cs => StaysBelow f.path cs) files paths := by
  cases h with
  | single hfiles hlength =>
    exact ⟨_, .single hfiles, .cons hname.staysBelow .nil⟩
  | @listed vs es hfiles hentries htotal =>
    refine ⟨es.map Entry.path, .listed hfiles ?_, forall₂_layOut hentries⟩
    rw [List.forall₂_map_right_iff]
    exact hentries.imp fun v e ⟨d, hv, _, hpath, _⟩ => ⟨d, hv, hpath⟩

theorem Describes.pathsBelow {readUrl : Net.UrlReader} {root info : Dictionary Value}
    {m : Metainfo} (h : Describes readUrl root info m) : PathsBelow info m where
  name := ⟨h.name, h.nameIsComponent.staysBelow⟩
  files := by
    obtain ⟨paths, hpaths, hbelow⟩ := h.content.exists_paths h.nameIsComponent
    refine ⟨paths, hpaths, hbelow, fun e he e' he' heq => ?_⟩
    exact (List.forall₂_zip hbelow he).components_inj (List.forall₂_zip hbelow he') heq

/-- **The paths of whatever is read stay below the directory**, from a value or from bytes and with
either source of the hash. -/
theorem paths_stay_below (readUrl : Net.UrlReader) :
    (∀ root m, ofValue readUrl root = .ok m → ∃ d info, root = .dictionary d ∧
      find? d "info" = some (.dictionary info) ∧ PathsBelow info m) ∧
    ∀ source data m, ofBytes readUrl source data = .ok m → ∃ d info,
      decode data = .ok (.dictionary d) ∧ find? d "info" = some (.dictionary info) ∧
        PathsBelow info m := by
  constructor
  · intro root m h
    obtain ⟨d, info, rfl, hm, -⟩ := readDocument_eq_ok_iff.mp h
    exact ⟨d, info, rfl, hm.infoField, hm.pathsBelow⟩
  · intro source data m h
    obtain ⟨d, info, b, hd, hm, -⟩ := ofBytes_eq_ok_iff.mp h
    exact ⟨d, info, hd, hm.infoField, hm.pathsBelow⟩

/-- Three dots are a name like any other. -/
theorem paths_stay_below_threeDots :
    let data := Text.utf8 <|
      "d8:announce9:http://t/4:infod5:filesld6:lengthi3e4:pathl3:...1:xeed6:lengthi1e4:pathl1:xeee" ++
      "4:name1:n12:piece lengthi4e6:pieces0:ee"
    ∃ m d info, ofBytes Net.Url.readAscii .raw data = .ok m ∧ decode data = .ok (.dictionary d) ∧
      find? d "info" = some (.dictionary info) ∧ PathsBelow info m ∧
      m.files.map (fun f => Path.place ["home"] (Path.push "down/" f.path)) =
        [["home", "down", "...", "x"], ["home", "down", "x"]] := by
  intro data
  have hread : (ofBytes Net.Url.readAscii .raw data).map (fun m => m.files.map fun f =>
      Path.place ["home"] (Path.push "down/" f.path)) =
      .ok [["home", "down", "...", "x"], ["home", "down", "x"]] := by decide +kernel
  obtain ⟨m, hm, hplaces⟩ := map_eq_ok_iff.mp hread
  obtain ⟨d, info, hd, hinfo, hbelow⟩ := (paths_stay_below Net.Url.readAscii).2 .raw data m hm
  exact ⟨m, d, info, hm, hd, hinfo, hbelow, hplaces⟩

end Swarm.Metainfo
