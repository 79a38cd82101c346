import TemplateSplice.Fault
import TemplateSplice.Text.Utf8

/-!
File trees as a run sees them, from a working directory: directories, regular files, devices and links.
A place in the tree is the list of names that lead to it, the innermost first, so that the parent of a
place is its tail. Every place but the root lies in a directory, no place is listed twice, and no link
leads to another one. A tree also says where it will not take what is written.
-/

namespace TemplateSplice

/-- A file name is any bytes. -/
abbrev Location := List Bytes

inductive Entry where
  | file (content : Bytes)
  | directory
  /-- What reads as empty and loses what is written to it. -/
  | device
  /-- What leads to another place: a symbolic link, or one more name of a file. -/
  | link (target : Location)
  deriving DecidableEq, Repr

def Entry.isLink : Entry → Bool
  | link _ => true
  | _ => false

inductive Hindrance where
  /-- Nothing can be made there or opened for writing. -/
  | refusal (cause : FileFault)
  /-- No more than so many bytes find room. -/
  | limit (bytes : Nat) (cause : FileFault)
  deriving DecidableEq, Repr

structure FileTree where
  entries : List (Location × Entry)
  cwd : Location
  hindrance : Location → Option Hindrance := fun _ => none
  root_mem : ([], .directory) ∈ entries
  parent_mem : ∀ name parent entry, (name :: parent, entry) ∈ entries →
    (parent, .directory) ∈ entries
  nodup : (entries.map (·.1)).Nodup
  link_final : ∀ entry ∈ entries, ∀ other ∈ entries, entry.2 = .link other.1 → other.2.isLink = false

namespace FileTree

def empty (cwd : Location) : FileTree where
  entries := [([], .directory)]
  cwd
  root_mem := by simp
  parent_mem := by simp
  nodup := by simp
  link_final := by simp

def entry? (t : FileTree) (l : Location) : Option Entry :=
  t.entries.lookup l

theorem lookup_eq_some_iff_mem {α β : Type} [BEq α] [LawfulBEq α] {entries : List (α × β)}
    (hn : (entries.map (·.1)).Nodup) {a : α} {b : β} :
    entries.lookup a = some b ↔ (a, b) ∈ entries := by
  rw [List.lookup_eq_some_iff]
  constructor
  · rintro ⟨before, after, rfl, -⟩
    simp
  · intro h
    obtain ⟨before, after, rfl⟩ := List.append_of_mem h
    refine ⟨before, after, rfl, fun entry hentry => ?_⟩
    rw [List.map_append, List.nodup_append] at hn
    have hne := hn.2.2 _ (List.mem_map_of_mem hentry) a (by simp)
    simpa using hne.symm

theorem entry?_eq_some_iff {t : FileTree} {l : Location} {e : Entry} :
    t.entry? l = some e ↔ (l, e) ∈ t.entries :=
  lookup_eq_some_iff_mem t.nodup

/-- Puts an entry that is no link into a directory, where no directory is. -/
def put (t : FileTree) (name : Bytes) (parent : Location) (e : Entry)
    (hp : t.entry? parent = some .directory)
    (hn : t.entry? (name :: parent) ≠ some .directory) (he : e.isLink = false := by exact Eq.refl false) :
    FileTree where
  entries := t.entries.filter (·.1 ≠ name :: parent) ++ [(name :: parent, e)]
  cwd := t.cwd
  hindrance := t.hindrance
  root_mem := by simp [t.root_mem]
  parent_mem := by
    have keep {l : Location} (h : (l, Entry.directory) ∈ t.entries) :
        (l, Entry.directory) ∈
          t.entries.filter (·.1 ≠ name :: parent) ++ [(name :: parent, e)] := by
      have hne : l ≠ name :: parent := fun hl => hn (entry?_eq_some_iff.mpr (hl ▸ h))
      simp [h, hne]
    intro n p entry h
    rcases List.mem_append.mp h with h | h
    · exact keep (t.parent_mem n p entry (List.mem_filter.mp h).1)
    · have : p = parent := by simp at h; exact h.1.2
      exact keep (this ▸ entry?_eq_some_iff.mp hp)
  nodup := by
    rw [List.map_append, List.nodup_append]
    refine ⟨t.nodup.sublist (List.filter_sublist.map _), by simp, ?_⟩
    intro l hl m hm heq
    simp only [List.map_cons, List.map_nil, List.mem_singleton] at hm
    obtain ⟨entry, hentry, rfl⟩ := List.mem_map.mp hl
    have := (List.mem_filter.mp hentry).2
    simp [heq, hm] at this
  link_final := by
    intro entry hentry other hother hlink
    rcases List.mem_append.mp hentry with hentry | hentry
    · rcases List.mem_append.mp hother with hother | hother
      · exact t.link_final entry (List.mem_filter.mp hentry).1 other (List.mem_filter.mp hother).1 hlink
      · rw [List.mem_singleton.mp hother]
        exact he
    · rw [List.mem_singleton.mp hentry] at hlink
      simp [show e = _ from hlink, Entry.isLink] at he

/-- Puts a link where nothing is and no link leads to. -/
def link (t : FileTree) (name : Bytes) (parent target : Location)
    (hp : t.entry? parent = some .directory) (hn : t.entry? (name :: parent) = none)
    (hfree : ∀ entry ∈ t.entries, entry.2 ≠ .link (name :: parent))
    (htarget : ∀ entry ∈ t.entries, entry.1 = target → entry.2.isLink = false)
    (hne : target ≠ name :: parent) : FileTree where
  entries := t.entries ++ [(name :: parent, .link target)]
  cwd := t.cwd
  hindrance := t.hindrance
  root_mem := List.mem_append_left _ t.root_mem
  parent_mem := by
    intro n p entry h
    rcases List.mem_append.mp h with h | h
    · exact List.mem_append_left _ (t.parent_mem n p entry h)
    · obtain ⟨⟨-, rfl⟩, -⟩ : (n = name ∧ p = parent) ∧ _ := by simpa using h
      exact List.mem_append_left _ (entry?_eq_some_iff.mp hp)
  nodup := by
    rw [List.map_append, List.nodup_append]
    refine ⟨t.nodup, by simp, ?_⟩
    rintro l hl m hm rfl
    obtain ⟨⟨_, e⟩, hentry, rfl⟩ := List.mem_map.mp hl
    obtain rfl := List.mem_singleton.mp hm
    rw [entry?_eq_some_iff.mpr hentry] at hn
    cases hn
  link_final := by
    intro entry hentry other hother hlink
    rcases List.mem_append.mp hother with hother | hother
    · rcases List.mem_append.mp hentry with hentry | hentry
      · exact t.link_final entry hentry other hother hlink
      · rw [List.mem_singleton.mp hentry] at hlink
        exact htarget other hother (Entry.link.inj hlink).symm
    · rw [List.mem_singleton.mp hother] at hlink
      rcases List.mem_append.mp hentry with hentry | hentry
      · exact absurd hlink (hfree entry hentry)
      · rw [List.mem_singleton.mp hentry] at hlink
        exact absurd (Entry.link.inj hlink) hne

def nameLimit : Nat := 255

def pathLimit : Nat := 4095

/-- What is wrong with a path wherever it may lead. -/
def pathFault? (p : Path) : Option FileFault :=
  if p = [] then some .notFound
  else if p.contains '\x00' then some .nameWithNul
  else if pathLimit < Text.byteLength p then some .nameTooLong
  else none

def enter (l : Location) : Path.Component → Except FileFault Location
  | .root => .ok []
  | .current => .ok l
  | .parent => .ok l.tail
  | .name text =>
    if nameLimit < Text.byteLength text then .error .nameTooLong else .ok (text.utf8 :: l)

/-- Where one gets to at a place: there, or behind the link that is there. -/
def follow (t : FileTree) (l : Location) : Location :=
  match t.entry? l with
  | some (.link target) => target
  | _ => l

/-- The place that components name. Everything that they pass through has to be a directory, or a link
to one. -/
def walk (t : FileTree) : Location → List Path.Component → Except FileFault Location
  | l, [] => .ok l
  | _, .root :: rest => t.walk [] rest
  | l, c :: rest =>
    match t.entry? (t.follow l) with
    | some .directory =>
      match enter (t.follow l) c with
      | .error fault => .error fault
      | .ok next => t.walk next rest
    | some _ => .error .notADirectory
    | none => .error .notFound

/-- The place that a path names, where a link may be. -/
def locate (t : FileTree) (p : Path) : Except FileFault Location :=
  match pathFault? p with
  | some fault => .error fault
  | none => t.walk t.cwd p.steps

/-- The place that a path leads to. -/
def resolve (t : FileTree) (p : Path) : Except FileFault Location :=
  (t.locate p).map t.follow

def stat (t : FileTree) (p : Path) : Except FileFault Entry := do
  let l ← t.resolve p
  match t.entry? l with
  | some e => .ok e
  | none => .error .notFound

def has (t : FileTree) (p : Path) : Bool :=
  (t.stat p).isOk

def isDirectory (t : FileTree) (p : Path) : Bool :=
  match t.stat p with
  | .ok .directory => true
  | _ => false

def isFile (t : FileTree) (p : Path) : Bool :=
  match t.stat p with
  | .ok (.file _) => true
  | _ => false

def read (t : FileTree) (p : Path) : Except FileFault Bytes := do
  match ← t.stat p with
  | .file content => .ok content
  | .directory => .error .isADirectory
  | .device => .ok []
  | .link _ => .error .notFound

def readText (t : FileTree) (p : Path) : Except FileFault Text := do
  match Utf8.decode? (← t.read p) with
  | some text => .ok text
  | none => .error .invalidUtf8

/-- What one finds behind an entry, if it is a link that leads somewhere. -/
def behind (t : FileTree) : Entry → Entry
  | .link target => (t.entry? target).getD (.link target)
  | e => e

/-- What lies directly in a directory, in no particular order, with what is found there. -/
def children (t : FileTree) (l : Location) : List (Bytes × Entry) :=
  t.entries.filterMap fun entry =>
    match entry.1 with
    | name :: parent => if parent = l then some (name, t.behind entry.2) else none
    | [] => none

def list (t : FileTree) (p : Path) : Except FileFault (List (Bytes × Entry)) := do
  let l ← t.resolve p
  match t.entry? l with
  | some .directory => .ok (t.children l)
  | some _ => .error .notADirectory
  | none => .error .notFound

def makeDirectory (t : FileTree) (l : Location) : Except FileFault FileTree :=
  match hn : t.entry? l with
  | some _ => .error .alreadyExists
  | none =>
    match l with
    | [] => .error .alreadyExists
    | name :: parent =>
      match hp : t.entry? parent with
      | some .directory =>
        match t.hindrance (name :: parent) with
        | some (.refusal cause) => .error cause
        | _ => .ok (t.put name parent .directory hp (by simp [hn]))
      | some _ => .error .notADirectory
      | none => .error .notFound

/-- A link is in the way of a directory, even if it leads nowhere. -/
def makeDirectoryAt (t : FileTree) (p : Path) : Except FileFault FileTree := do
  t.makeDirectory (← t.locate p)

def ensureDirectory (t : FileTree) (p : Path) : FileTree × Option FileFault :=
  match t.makeDirectoryAt p with
  | .ok t => (t, none)
  | .error fault => (t, if t.isDirectory p then none else some fault)

/-- Makes the first of the directories and what is missing above it, each path being followed by the
one of its parent. What has been made stays when a later step fails. -/
def makeDirectories (t : FileTree) : List Path → FileTree × Option FileFault
  | [] => (t, none)
  | p :: outer =>
    match t.makeDirectoryAt p with
    | .error .notFound =>
      match t.makeDirectories outer with
      | (t, none) => t.ensureDirectory p
      | failed => failed
    | _ => t.ensureDirectory p

/-- Puts an entry where a file or nothing was. -/
def place (t : FileTree) (l : Location) (e : Entry) (he : e.isLink = false := by exact Eq.refl false) :
    Except FileFault FileTree :=
  match l with
  | [] => .error .isADirectory
  | name :: parent =>
    match hp : t.entry? parent with
    | some .directory =>
      if hn : t.entry? (name :: parent) = some .directory then .error .isADirectory
      else .ok (t.put name parent e hp hn he)
    | some _ => .error .notADirectory
    | none => .error .notFound

/-- How much of a content a place takes, and the fault that ends the writing if that is not all; none of
it, and the fault alone, if the place cannot even be opened. -/
def taken (t : FileTree) (l : Location) (content : Bytes) :
    Except FileFault (Bytes × Option FileFault) :=
  match t.hindrance l with
  | none => .ok (content, none)
  | some (.refusal cause) => .error cause
  | some (.limit n cause) =>
    if content.length ≤ n then .ok (content, none) else .ok (content.take n, some cause)

/-- Writes a file, over an old one if there is one. What was there is gone once the file is open, and a
writing that breaks off leaves what has been written so far. -/
def writeAt (t : FileTree) (l : Location) (content : Bytes) : FileTree × Option FileFault :=
  match t.taken l content with
  | .error fault => (t, some fault)
  | .ok (part, fault?) =>
    if t.entry? l = some .device then (t, fault?)
    else
      match t.place l (.file part) with
      | .error fault => (t, some fault)
      | .ok t => (t, fault?)

def write (t : FileTree) (p : Path) (content : Bytes) : FileTree × Option FileFault :=
  match t.resolve p with
  | .error fault => (t, some fault)
  | .ok l => t.writeAt l content

end FileTree
end TemplateSplice
