/-
VmProbe/Settings/Files.lean

Settings in files: where the file is by default, and loading and saving it in a tree.

Saving makes the directories of the file, then makes the file empty, and only then writes the
settings; so settings that cannot be written leave an empty file behind, and a directory that
cannot be made leaves those above it behind.
-/
import VmProbe.Files.Tree
import VmProbe.Settings.Basic

namespace VmProbe.Settings

open Files (Tree FileError)

/-! ### Errors -/

/-- Why a file could not be read as text. -/
inductive ReadError
  | system (e : FileError)
  | notText
  deriving DecidableEq, Repr

/-- The message of the system. -/
def ReadError.message : ReadError → String
  | system e => e.message
  | notText => "stream did not contain valid UTF-8"

/-- Why an opened file gave no settings. -/
inductive ContentError
  | unreadable (e : ReadError)
  | unparsable
  deriving DecidableEq, Repr

/-- The same, when the bytes of the file are known. -/
def ContentError.ofLoad : LoadError → ContentError
  | .notText => unreadable .notText
  | .unparsable => unparsable

/-- What was being done, and the cause where the system gives one. -/
def ContentError.chain : ContentError → List String × Option String
  | unreadable e => (["reading config"], some e.message)
  | unparsable => (["parsing config"], none)

/-- Why settings could not be loaded or saved. -/
inductive FilesError
  | opening (path : String) (cause : FileError)
  | loading (path : String) (cause : ContentError)
  | creatingDirectory (path : String) (cause : FileError)
  | creatingFile (cause : FileError)
  | saving
  deriving DecidableEq, Repr

/-- What was being done, the widest view first, and the cause where the system gives one. -/
def FilesError.chain : FilesError → List String × Option String
  | opening path e => (["opening config file " ++ path], some e.message)
  | loading path e => (("loading config file " ++ path) :: e.chain.1, e.chain.2)
  | creatingDirectory path e => (["creating config dir " ++ path], some e.message)
  | creatingFile e => (["creating file for saving"], some e.message)
  | saving => (["saving config", "serialising config"], none)

/-! ### Loading and saving -/

/-- The settings of an opened file. -/
def loadEntry (e : Files.Entry) : Except ContentError Settings :=
  match Tree.Entry.read e with
  | .error cause => .error (.unreadable (.system cause))
  | .ok bytes => (load bytes).mapError .ofLoad

/-- The settings in what was found under a path. -/
def loadFound (path : String) : Except FileError Files.Entry → Except FilesError Settings
  | .error e => .error (.opening path e)
  | .ok entry => (loadEntry entry).mapError (.loading path)

/-- The settings in what was found under a path, or the default when nothing was. -/
def loadFoundOrDefault (path : String) :
    Except FileError Files.Entry → Except FilesError Settings
  | .error _ => .ok default
  | found => loadFound path found

/-- The settings in the file that a path names. -/
def loadFrom (t : Tree) (path : String) : Except FilesError Settings :=
  loadFound path (t.find path)

/-- The settings in the file that a path names, or the default when there is none. -/
def loadOrDefault (t : Tree) (path : String) : Except FilesError Settings :=
  loadFoundOrDefault path (t.find path)

/-- Makes the directories for a file. -/
def makeParent (t : Tree) (path : String) : Except FilesError Unit × Tree :=
  match Files.parent? path with
  | none => (.ok (), t)
  | some directory =>
    let (result, made) := t.makeDirectories directory
    (result.mapError (.creatingDirectory directory), made)

/-- Saves settings to the file that a path names; the tree afterwards is there in any case. -/
def saveTo (t : Tree) (path : String) (s : Settings) : Except FilesError Unit × Tree :=
  match makeParent t path with
  | (.error e, made) => (.error e, made)
  | (.ok (), made) =>
    match made.write path [] with
    | .error e => (.error (.creatingFile e), made)
    | .ok emptied =>
      match s.save? with
      | none => (.error .saving, emptied)
      | some text =>
        match emptied.write path (Text.encode text) with
        | .error e => (.error (.creatingFile e), emptied)
        | .ok written => (.ok (), written)

/-! ### The default place -/

/-- What the environment says about the user's directories. -/
structure Directories where
  /-- The home directory as the environment gives it. -/
  home : Option String
  /-- The directory for settings as the environment gives it. -/
  config : Option String
  /-- The home directory of the user's account, which counts when no other is given. -/
  account : Option String
  deriving DecidableEq, Repr

namespace Directories

/-- The home directory. -/
def homeDirectory? (d : Directories) : Option String :=
  match d.home with
  | none => d.account
  | some home => if home = "" then d.account else some home

/-- The directory for settings: the one given if it is absolute, else one below home. -/
def configDirectory? (d : Directories) : Option String :=
  match d.config.filter Files.isAbsolute with
  | some directory => some directory
  | none => d.homeDirectory?.map fun home => Files.join home ".config"

/-- Where the settings file is unless the user says otherwise. -/
def defaultPath? (d : Directories) : Option String :=
  d.configDirectory?.map fun directory =>
    Files.join (Files.join directory "uvm-dbg") "config.toml"

end Directories

end VmProbe.Settings
