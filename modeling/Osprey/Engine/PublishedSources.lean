/-
`Sources` and the dictionary they are published as: `to_dict` on the side of the
publisher, `from_dict` on the side of the workers.

The config files do not travel themselves. `SourcesConfig` writes what they were
merged to as one file, `config.yaml`, and `to_dict` adds that file to the rules.
It is written at the end of the constructor only, which returns before if one of
the files is empty, and `Sources` without a configuration are given an empty
one. So there are sources for which `to_dict` raises.

`hash` is fed the path and the contents of each file with one `|` between them
and nothing after them, so that contents can pass for the next file.
-/
import Osprey.Engine.SourcesConfig
import Osprey.Lib.Encoding

namespace Osprey.PublishedSources

open ConfigMerge (Yaml SourcesConfig Error addConfig mergeSources sortSources)
open Lib (Tree)
open Lib.Encoding (append_cons_inj)

variable {κ α : Type}

def sourceEntryPointPath : String := "main.sml"

def configPath : String := "config.yaml"

/-! ## Builders -/

/-- `SourcesBuilder`: rules with paths of their own, and a configuration that was made from files. -/
structure SourcesBuilder (yaml : Yaml κ α) where
  sources : List ConfigMerge.Source := []
  config : Option (SourcesConfig κ α) := none
  distinct : (sources.map ConfigMerge.Source.path).Nodup := by exact List.nodup_nil
  extension : ∀ source ∈ sources, ".sml".toList <:+ source.path.toList := by exact List.forall_mem_nil _
  config_new : ∀ c ∈ config, ∃ files, SourcesConfig.new yaml files = .ok c := by exact nofun

/-- `Sources`: rules with an entry point, and a configuration. -/
structure Sources (yaml : Yaml κ α) where
  sources : List ConfigMerge.Source
  config : SourcesConfig κ α
  distinct : (sources.map ConfigMerge.Source.path).Nodup
  extension : ∀ source ∈ sources, ".sml".toList <:+ source.path.toList
  config_new : ∃ files, SourcesConfig.new yaml files = .ok config
  entryPoint : sourceEntryPointPath ∈ sources.map ConfigMerge.Source.path

variable {yaml : Yaml κ α}

variable {files : List ConfigMerge.Source} {c : SourcesConfig κ α}

theorem new_of_addConfig {known} (h : addConfig yaml known files = .ok c) : SourcesConfig.new yaml files = .ok c := by
  unfold addConfig at h
  split at h
  · cases h
  · obtain ⟨_, -, h⟩ := bind_eq_ok.mp h
    exact h

namespace SourcesBuilder

def addSource (b : SourcesBuilder yaml) (source : ConfigMerge.Source) : Except Error (SourcesBuilder yaml) :=
  if hpath : source.path ∈ b.sources.map ConfigMerge.Source.path then
    .error (.assertionError "A source with that path already exists.")
  else if hextension : ".sml".toList <:+ source.path.toList then
    .ok { b with
      sources := b.sources ++ [source]
      distinct := by
        rw [List.map_append, List.map_singleton]
        exact List.nodup_append_comm.mp (List.nodup_cons.mpr ⟨hpath, b.distinct⟩)
      extension := by
        intro s hs
        rcases List.mem_append.mp hs with hs | hs
        · exact b.extension s hs
        · rw [List.mem_singleton.mp hs]
          exact hextension }
  else .error (.assertionError ("Source " ++ yaml.reprSource source ++ " does not end with .sml"))

def addConfig (b : SourcesBuilder yaml) (files : List ConfigMerge.Source) : Except Error (SourcesBuilder yaml) :=
  match h : ConfigMerge.addConfig yaml b.config files with
  | .error e => .error e
  | .ok c => .ok { b with
      config := some c
      config_new := by
        intro c' hc'
        cases hc'
        exact ⟨files, new_of_addConfig h⟩ }

theorem addConfig_ok {b : SourcesBuilder yaml} (h : ConfigMerge.addConfig yaml b.config files = .ok c) :
    ∃ b', b.addConfig files = .ok b' ∧ b'.sources = b.sources ∧ b'.config = some c := by
  unfold addConfig
  split
  · rename_i e he
    rw [h] at he
    cases he
  · rename_i c' hc'
    rw [h] at hc'
    cases hc'
    exact ⟨_, rfl, rfl, rfl⟩

/-- The configuration of a builder, or the one of an empty file. -/
def configOrEmpty (b : SourcesBuilder yaml) : SourcesConfig κ α := b.config.getD ⟨[⟨configPath, ""⟩], [], none⟩

theorem configOrEmpty_new (b : SourcesBuilder yaml) : ∃ files, SourcesConfig.new yaml files = .ok b.configOrEmpty := by
  unfold configOrEmpty
  cases h : b.config with
  | some c => exact b.config_new c h
  | none => exact ⟨[⟨configPath, ""⟩], rfl⟩

/-- `build`, with the assertion of `Sources.__init__`. -/
def build (b : SourcesBuilder yaml) : Except Error (Sources yaml) :=
  if h : sourceEntryPointPath ∈ b.sources.map ConfigMerge.Source.path then
    .ok ⟨b.sources, b.configOrEmpty, b.distinct, b.extension, b.configOrEmpty_new, h⟩
  else .error (.assertionError
    "Sources requires a file with the `path` 'main.sml' to be present as the entry-point")

end SourcesBuilder

/-! ## Dictionaries of sources -/

/-- One turn of the loop of `from_dict`. -/
def addEntry (b : SourcesBuilder yaml) (e : String × String) : Except Error (SourcesBuilder yaml) :=
  if e.1 = configPath then b.addConfig [⟨e.1, e.2⟩] else b.addSource ⟨e.1, e.2⟩

namespace Sources

def fromDict (yaml : Yaml κ α) (sourcesDict : Lib.Dict String String) : Except Error (Sources yaml) := do
  (← sourcesDict.entries.foldlM addEntry ({} : SourcesBuilder yaml)).build

def toDict (s : Sources yaml) : Except Exc (Lib.Dict String String) :=
  match s.config.source with
  | none => .error ⟨.other, "'SourcesConfig' object has no attribute '_source'"⟩
  | some source =>
    let sources := if source.contents = "" then s.sources else s.sources ++ [source]
    .ok (.ofList (sources.map fun source => (source.path, source.contents)))

/-- Publishing loses nothing: what is read from the dictionary that was written has the same rules and the
same configuration. -/
def Lossless (s : Sources yaml) : Prop :=
  ∃ sourcesDict, s.toDict = .ok sourcesDict ∧
    ∃ s', fromDict yaml sourcesDict = .ok s' ∧ s'.sources = s.sources ∧ s'.config.config = s.config.config

end Sources

/-- The YAML dumper and loader are inverse on config mappings: what a merge of files is dumped to is not empty, and
is loaded as what was dumped. -/
structure Inverse (yaml : Yaml κ α) : Prop where
  load_dump : ∀ files config, mergeSources yaml files = .ok config →
    yaml.load ⟨configPath, yaml.dump config⟩ = .ok (.dict config)
  dump_ne_empty : ∀ files config, mergeSources yaml files = .ok config → yaml.dump config ≠ ""

/-! ## Configurations -/

/-- What was merged, if files were: the mappings that they hold, to a mapping whose keys are texts. -/
theorem merged_of_mergeSources {config} (h : mergeSources yaml files = .ok config) :
    ∃ configs, yaml.mergeAll configs = some config ∧
      (∀ c ∈ configs, ∃ file ∈ files, yaml.load file = .ok (.dict c)) ∧ ∀ e ∈ config, yaml.isText e.1 := by
  obtain ⟨docs, hload, h⟩ := bind_eq_ok.mp h
  obtain ⟨configs, hdict, h⟩ := bind_eq_ok.mp h
  obtain ⟨merged, hmerge, h⟩ := bind_eq_ok.mp h
  obtain ⟨_, hkeys, h⟩ := bind_eq_ok.mp h
  cases h
  refine ⟨configs, ?_, fun c hc => ?_, fun e he => ?_⟩
  · rw [ConfigMerge.mergeOrRaise] at hmerge
    cases hall : yaml.mergeAll configs with
    | none => simp [hall] at hmerge
    | some _ => simpa [hall] using hmerge
  · obtain ⟨doc, hdoc, hc⟩ := (Lib.mem_of_mapM_ok hdict).mp hc
    obtain ⟨file, hfile, hdoc⟩ := (Lib.mem_of_mapM_ok hload).mp hdoc
    cases doc with
    | dict entries =>
      cases hc
      exact ⟨file, hfile, hdoc⟩
    | _ => cases hc
  · rw [ConfigMerge.checkKeys] at hkeys
    split at hkeys
    · cases hkeys
    · rename_i hnone
      simpa using List.find?_eq_none.mp hnone e he

theorem new_dumped (hyaml : Inverse yaml) {config} (h : mergeSources yaml files = .ok config) :
    ∃ c, addConfig yaml none [⟨configPath, yaml.dump config⟩] = .ok c ∧ c.config = config := by
  obtain ⟨configs, hmerged, _, htext⟩ := merged_of_mergeSources h
  have hnodup := ConfigMerge.nodup_mergeAll hmerged
  have hload := hyaml.load_dump files config h
  have hmapping : ConfigMerge.mapping yaml ⟨configPath, yaml.dump config⟩ = config := by
    rw [ConfigMerge.mapping, hload]
  have hmerge : mergeSources yaml [⟨configPath, yaml.dump config⟩] = .ok config := by
    refine ConfigMerge.mergeSources_eq (fun file hfile => ?_) ?_
    · cases List.mem_singleton.mp hfile
      rw [hmapping]
      exact ⟨hload, htext⟩
    · rw [List.map_singleton, hmapping]
      exact ConfigMerge.mergeAll_singleton hnodup
  have hpaths : ConfigMerge.checkPaths yaml [⟨configPath, yaml.dump config⟩] [] = .ok () := by
    refine ConfigMerge.checkPaths_ok (List.nodup_singleton _) (fun _ _ => List.not_mem_nil) fun file hfile => ?_
    rw [List.mem_singleton.mp hfile]
    show ".yaml".toList <:+ configPath.toList
    decide
  refine ⟨⟨[⟨configPath, yaml.dump config⟩], config, some ⟨configPath, yaml.dump config⟩⟩, ?_, rfl⟩
  rw [addConfig, hpaths]
  show SourcesConfig.new yaml [⟨configPath, yaml.dump config⟩] = _
  have hcontents : ¬ (sortSources [⟨configPath, yaml.dump config⟩]).any (·.contents = "") = true := by
    simpa [sortSources] using hyaml.dump_ne_empty files config h
  rw [SourcesConfig.new, if_neg (List.cons_ne_nil _ _), if_neg hcontents]
  show (mergeSources yaml [⟨configPath, yaml.dump config⟩]).map _ = _
  rw [hmerge]
  rfl

/-! ## Rules -/

theorem foldlM_addEntry : ∀ (rest : List ConfigMerge.Source) (b : SourcesBuilder yaml),
    ((b.sources ++ rest).map ConfigMerge.Source.path).Nodup → (∀ source ∈ rest, ".sml".toList <:+ source.path.toList) →
      ∃ b' : SourcesBuilder yaml, (rest.map fun source => (source.path, source.contents)).foldlM addEntry b = .ok b' ∧
        b'.sources = b.sources ++ rest ∧ b'.config = b.config
  | [], b, _, _ => ⟨b, rfl, (List.append_nil _).symm, rfl⟩
  | source :: rest, b, hdistinct, hextension => by
    obtain ⟨hsml, hrest⟩ := List.forall_mem_cons.mp hextension
    have hpath : source.path ∉ b.sources.map ConfigMerge.Source.path := by
      rw [List.map_append, List.map_cons] at hdistinct
      exact fun h => List.disjoint_of_nodup_append hdistinct h List.mem_cons_self
    have hrule : source.path ≠ configPath := by
      intro h
      rw [h] at hsml
      exact absurd hsml (by decide)
    obtain ⟨b', hb', hsources, hconfig⟩ : ∃ b', addEntry b (source.path, source.contents) = .ok b' ∧
        b'.sources = b.sources ++ [source] ∧ b'.config = b.config := by
      rw [addEntry, if_neg hrule, SourcesBuilder.addSource, dif_neg hpath, dif_pos hsml]
      exact ⟨_, rfl, rfl, rfl⟩
    obtain ⟨b'', hb'', hsources', hconfig'⟩ := foldlM_addEntry rest b'
      (by rw [hsources, List.append_assoc]; exact hdistinct) hrest
    refine ⟨b'', ?_, ?_, hconfig'.trans hconfig⟩
    · rw [List.map_cons, List.foldlM_cons, hb']
      exact hb''
    · rw [hsources', hsources, List.append_assoc]
      rfl

theorem nodup_entries (s : Sources yaml) (contents : String) :
    ((s.sources.map (fun source => (source.path, source.contents)) ++
      [(configPath, contents)]).map Prod.fst).Nodup := by
  rw [List.map_append, List.map_map, List.map_singleton]
  refine List.nodup_append_comm.mp (List.nodup_cons.mpr ⟨fun h => ?_, s.distinct⟩)
  obtain ⟨source, hsource, hpath⟩ := List.mem_map.mp h
  have hsml := s.extension source hsource
  simp only [Function.comp_apply] at hpath
  rw [hpath] at hsml
  exact absurd hsml (by decide)

theorem lossless_of_merged (hyaml : Inverse yaml) (s : Sources yaml)
    (hmerge : mergeSources yaml files = .ok s.config.config)
    (hsource : s.config.source = some ⟨configPath, yaml.dump s.config.config⟩) : s.Lossless := by
  obtain ⟨b, hb, hsources, hconfig⟩ := foldlM_addEntry s.sources ({} : SourcesBuilder yaml) s.distinct s.extension
  obtain ⟨c, hc, hcconfig⟩ := new_dumped hyaml hmerge
  refine ⟨⟨_, nodup_entries s (yaml.dump s.config.config)⟩, ?_, ?_⟩
  · rw [Sources.toDict, hsource]
    simp only [hyaml.dump_ne_empty files _ hmerge, if_false, List.map_append, List.map_singleton]
    rw [← Lib.Dict.ofList_entries ⟨_, nodup_entries s (yaml.dump s.config.config)⟩]
  · have hadd : addConfig yaml b.config [⟨configPath, yaml.dump s.config.config⟩] = .ok c := by
      rw [hconfig]
      exact hc
    obtain ⟨b', hb', hsources', hconfig'⟩ := SourcesBuilder.addConfig_ok hadd
    have hentry : sourceEntryPointPath ∈ b'.sources.map ConfigMerge.Source.path := by
      rw [hsources', hsources]
      exact s.entryPoint
    have hfold : (s.sources.map (fun source => (source.path, source.contents)) ++
        [(configPath, yaml.dump s.config.config)]).foldlM addEntry ({} : SourcesBuilder yaml) = .ok b' := by
      rw [List.foldlM_append, hb]
      show (addEntry b (configPath, yaml.dump s.config.config) >>= pure) = _
      rw [addEntry, if_pos rfl, hb']
      rfl
    refine ⟨⟨b'.sources, b'.configOrEmpty, b'.distinct, b'.extension, b'.configOrEmpty_new, hentry⟩, ?_,
      hsources'.trans hsources, ?_⟩
    · rw [Sources.fromDict, hfold]
      show b'.build = _
      rw [SourcesBuilder.build, dif_pos hentry]
    · show b'.configOrEmpty.config = s.config.config
      rw [SourcesBuilder.configOrEmpty, hconfig']
      exact hcconfig

/-- **When publishing is lossless.** Given a YAML dumper and loader that are
inverse on config mappings, `to_dict` returns and `from_dict` of it has the same
rules and the same configuration exactly if no config file is empty; sources
without a configuration count as sources with an empty config file. -/
theorem lossless_iff (hyaml : Inverse yaml) (s : Sources yaml) :
    s.Lossless ↔ ∀ file ∈ s.config.sources, file.contents ≠ "" := by
  obtain ⟨files, hnew⟩ := s.config_new
  rcases (SourcesConfig.new_cases hnew).2 with ⟨⟨file, hfile, hcontents⟩, -, hsource⟩ | ⟨hall, hmerge, hsource⟩
  · refine iff_of_false ?_ fun h => h file hfile hcontents
    intro ⟨sourcesDict, hdict, _⟩
    rw [Sources.toDict, hsource] at hdict
    cases hdict
  · refine iff_of_true ?_ hall
    exact lossless_of_merged hyaml s hmerge hsource

/-! ## Sources that cannot be published -/

/-- YAML with two mappings only: an empty one, and `labels: 0`. -/
def smallYaml : Yaml String Nat where
  load := fun file => .ok (.dict (if file.contents = "\x7b\x7d" then [] else [("labels", .leaf 0)]))
  isText := fun _ => true
  dump := fun config => if config.isEmpty then "\x7b\x7d" else "labels: 0"
  reprKey := id
  reprSource := ConfigMerge.Source.path
  deepmerge := .replacing

theorem smallYaml_inverse : Inverse smallYaml := by
  have hcases : ∀ files config, mergeSources smallYaml files = .ok config →
      config = [] ∨ config = [("labels", .leaf 0)] := by
    intro files config h
    obtain ⟨configs, hmerged, hfiles, _⟩ := merged_of_mergeSources h
    refine ConfigMerge.mergeAll_induction (P := fun config => config = [] ∨ config = [("labels", .leaf 0)])
      (.inl rfl) (fun base c hc merged hbase hmerge => ?_) hmerged
    obtain ⟨file, _, hload⟩ := hfiles c hc
    obtain rfl | rfl : c = [] ∨ c = [("labels", .leaf 0)] := by
      cases hload
      show (if file.contents = "\x7b\x7d" then _ else _) = _ ∨ (if file.contents = "\x7b\x7d" then _ else _) = _
      split
      · exact .inl rfl
      · exact .inr rfl
    all_goals rcases hbase with rfl | rfl <;> cases hmerge
    · exact .inl rfl
    · exact .inr rfl
    · exact .inr rfl
    · exact .inr rfl
  constructor
  · intro files config h
    rcases hcases files config h with rfl | rfl <;> rfl
  · intro files config h
    rcases hcases files config h with rfl | rfl <;> decide

/-- An empty `main.sml`, with the configuration that these files give. -/
def mainWith (c : SourcesConfig String Nat) (h : ∃ files, SourcesConfig.new smallYaml files = .ok c) :
    Sources smallYaml where
  sources := [⟨"main.sml", ""⟩]
  config := c
  distinct := List.nodup_singleton _
  extension := by decide
  config_new := h
  entryPoint := List.mem_singleton_self _

/-- An empty rule file and a config file that is not empty are published. -/
theorem lossless_with_config :
    (mainWith ⟨[⟨"config/a.yaml", "labels: 0"⟩], [("labels", .leaf 0)], some ⟨"config.yaml", "labels: 0"⟩⟩
      ⟨[⟨"config/a.yaml", "labels: 0"⟩], rfl⟩).Lossless :=
  (lossless_iff smallYaml_inverse _).mpr (by decide)

/-- Sources without a config file are built, but `to_dict` raises. So it does beside a config file that is
not empty, if there is another one that is. -/
theorem without_config_to_dict_raises :
    (∃ s : Sources smallYaml,
      (({} : SourcesBuilder smallYaml).addSource ⟨"main.sml", ""⟩ >>= SourcesBuilder.build) = .ok s ∧
        s.toDict = .error ⟨.other, "'SourcesConfig' object has no attribute '_source'"⟩) ∧
    ∃ s : Sources smallYaml,
      (({} : SourcesBuilder smallYaml).addSource ⟨"main.sml", ""⟩ >>= fun b =>
        b.addConfig [⟨"config.yaml", "labels: 0"⟩, ⟨"config/b.yaml", ""⟩] >>= SourcesBuilder.build) = .ok s ∧
        s.toDict = .error ⟨.other, "'SourcesConfig' object has no attribute '_source'"⟩ :=
  ⟨⟨_, rfl, rfl⟩, ⟨_, rfl, rfl⟩⟩

/-! ## The hash -/

namespace Sources

/-- The config files and the rules, both sorted by path. -/
def allFiles (s : Sources yaml) : List ConfigMerge.Source × List ConfigMerge.Source :=
  (s.config.sources, sortSources s.sources)

/-- The files that `hash` reads: the config files, unless all are empty, and the rules. -/
def hashedFiles (s : Sources yaml) : List ConfigMerge.Source :=
  if s.config.sources.any (·.contents ≠ "") then s.config.sources ++ sortSources s.sources
  else sortSources s.sources

/-- `Sources.hash`, with a digest in the place of SHA-256. -/
def hash (hexdigest : ByteArray → String) (s : Sources yaml) : String :=
  hexdigest (String.join (s.hashedFiles.flatMap fun source => [source.path, "|", source.contents])).toUTF8

end Sources

/-- The text of a file, as the digest is fed it. -/
def text (file : ConfigMerge.Source) : List Char := file.path.toList ++ '|' :: file.contents.toList

def fed (files : List ConfigMerge.Source) : List Char := files.flatMap text

theorem Sources.hashedFiles_of_allFiles {s s' : Sources yaml} (h : s.allFiles = s'.allFiles) :
    s.hashedFiles = s'.hashedFiles := by
  obtain ⟨hconfig, hrules⟩ := Prod.mk.inj h
  simp only [hashedFiles, hconfig, hrules]

theorem Sources.hash_eq_iff {hexdigest : ByteArray → String} (hinj : Function.Injective hexdigest)
    {s s' : Sources yaml} :
    s.hash hexdigest = s'.hash hexdigest ↔ fed s.hashedFiles = fed s'.hashedFiles := by
  have htext : ∀ files : List ConfigMerge.Source,
      (String.join (files.flatMap fun source => [source.path, "|", source.contents])).toList = fed files := by
    intro files
    rw [String.toList_join, List.flatMap_assoc]
    exact List.flatMap_congr fun file _ => by simp [text]
  rw [Sources.hash, Sources.hash, hinj.eq_iff, ← htext, ← htext]
  exact String.toByteArray_inj.trans String.toList_inj.symm

/-- Files run over into others. The first ones are the same. Of the two that differ then, the text of the one is that
of the other and an overrun, and the overrun and the files after the one read as the files after the other. -/
def RunsOver (files files' : List ConfigMerge.Source) : Prop :=
  ∃ same file file' later later' overrun, files = same ++ file :: later ∧ files' = same ++ file' :: later' ∧
    file ≠ file' ∧ text file = text file' ++ overrun ∧ overrun ++ fed later = fed later'

theorem RunsOver.cons {files files'} (file) : RunsOver files files' → RunsOver (file :: files) (file :: files') := by
  rintro ⟨same, f, f', later, later', overrun, rfl, rfl, h⟩
  exact ⟨file :: same, f, f', later, later', overrun, rfl, rfl, h⟩

theorem RunsOver.ne {files files'} : RunsOver files files' → files ≠ files' := by
  rintro ⟨same, f, f', later, later', overrun, rfl, rfl, hne, -⟩ h
  exact hne (List.cons.inj (List.append_cancel_left h)).1

theorem RunsOver.fed_eq {files files'} : RunsOver files files' → fed files = fed files' := by
  rintro ⟨same, f, f', later, later', overrun, rfl, rfl, -, htext, hfed⟩
  simp only [fed] at hfed
  simp [fed, htext, ← hfed]

/-- If the paths have no bar, then the two files have one path, and the contents of the one begin with those of the
other. -/
theorem RunsOver.contents_prefix {files files'} (hf : ∀ f ∈ files ++ files', '|' ∉ f.path.toList) :
    RunsOver files files' →
      ∃ f ∈ files, ∃ f' ∈ files', f ≠ f' ∧ f.path = f'.path ∧ f'.contents.toList <+: f.contents.toList := by
  rintro ⟨same, f, f', later, later', overrun, rfl, rfl, hne, htext, -⟩
  have htext : f.path.toList ++ '|' :: f.contents.toList =
      f'.path.toList ++ '|' :: (f'.contents.toList ++ overrun) := by
    simpa [text] using htext
  obtain ⟨hpath, hcontents⟩ := append_cons_inj (hf f (by simp)) (hf f' (by simp)) htext
  exact ⟨f, by simp, f', by simp, hne, String.ext hpath, overrun, hcontents.symm⟩

/-- **Different files are fed alike exactly if some run over.** -/
theorem fed_eq_iff {files files'} :
    fed files = fed files' ↔ files = files' ∨ RunsOver files files' ∨ RunsOver files' files := by
  refine ⟨fun h => ?_, ?_⟩
  · induction files generalizing files' with
    | nil =>
      cases files' with
      | nil => exact .inl rfl
      | cons f' files' => simp [fed, text] at h
    | cons f files ih =>
      cases files' with
      | nil => simp [fed, text] at h
      | cons f' files' =>
        have h : text f ++ fed files = text f' ++ fed files' := h
        by_cases hf : f = f'
        · subst hf
          rcases ih (List.append_cancel_left h) with rfl | h | h
          · exact .inl rfl
          · exact .inr (.inl (h.cons f))
          · exact .inr (.inr (h.cons f))
        · rcases List.append_eq_append_iff.mp h with ⟨overrun, htext, hfed⟩ | ⟨overrun, htext, hfed⟩
          · exact .inr (.inr ⟨[], f', f, files', files, overrun, rfl, rfl, Ne.symm hf, htext, hfed.symm⟩)
          · exact .inr (.inl ⟨[], f, f', files, files', overrun, rfl, rfl, hf, htext, hfed.symm⟩)
  · rintro (rfl | h | h)
    · rfl
    · exact h.fed_eq
    · exact h.fed_eq.symm

/-! ### Plain files -/

/-- Neither the path nor the contents have a bar, the path has one line, and the contents end with a line. -/
structure Plain (file : ConfigMerge.Source) : Prop where
  path : '|' ∉ file.path.toList ∧ '\n' ∉ file.path.toList
  contents : '|' ∉ file.contents.toList
  lines : file.contents.toList = [] ∨ ∃ text, file.contents.toList = text ++ ['\n']

/-- Contents that end with a line are told from the path that follows them. -/
theorem lines_append_inj {c p c' p'} (hc : c = [] ∨ ∃ text, c = text ++ ['\n'])
    (hc' : c' = [] ∨ ∃ text, c' = text ++ ['\n']) (hp : '\n' ∉ p) (hp' : '\n' ∉ p') (h : c ++ p = c' ++ p') :
    c = c' ∧ p = p' := by
  rcases hc with rfl | ⟨text, rfl⟩ <;> rcases hc' with rfl | ⟨text', rfl⟩
  · exact ⟨rfl, h⟩
  · exact absurd (by simp [show p = _ from h]) hp
  · exact absurd (by simp [show p' = _ from h.symm]) hp'
  · have hrev := congrArg List.reverse h
    simp only [List.reverse_append, List.reverse_singleton, List.singleton_append] at hrev
    obtain ⟨hp, ht⟩ := append_cons_inj (by simpa using hp) (by simpa using hp') hrev
    rw [List.reverse_injective hp, List.reverse_injective ht]
    exact ⟨rfl, rfl⟩

/-- **Plain files are decoded in one way.** The induction carries the contents of the file before. -/
theorem fed_inj : ∀ {files files' c c'}, (∀ f ∈ files, Plain f) →
    (∀ f ∈ files', Plain f) → '|' ∉ c → '|' ∉ c' → (c = [] ∨ ∃ text, c = text ++ ['\n']) →
    (c' = [] ∨ ∃ text, c' = text ++ ['\n']) → c ++ fed files = c' ++ fed files' → c = c' ∧ files = files'
  | [], [], c, c', _, _, _, _, _, _, h => ⟨by simpa [fed] using h, rfl⟩
  | [], f :: files', c, c', _, _, hc, _, _, _, h => absurd (by simp [show c = _ by simpa [fed, text] using h]) hc
  | f :: files, [], c, c', _, _, _, hc', _, _, h => absurd (by simp [show c' = _ by simpa [fed, text] using h.symm]) hc'
  | f :: files, f' :: files', c, c', hf, hf', hc, hc', hl, hl', h => by
    obtain ⟨hfirst, hf⟩ := List.forall_mem_cons.mp hf
    obtain ⟨hfirst', hf'⟩ := List.forall_mem_cons.mp hf'
    have h : (c ++ f.path.toList) ++ '|' :: (f.contents.toList ++ fed files) =
        (c' ++ f'.path.toList) ++ '|' :: (f'.contents.toList ++ fed files') := by simpa [fed, text] using h
    obtain ⟨hpath, hrest⟩ := append_cons_inj (by simp [hc, hfirst.path.1]) (by simp [hc', hfirst'.path.1]) h
    obtain ⟨rfl, hpath'⟩ := lines_append_inj hl hl' hfirst.path.2 hfirst'.path.2 hpath
    obtain ⟨hcontents, rfl⟩ := fed_inj hf hf' hfirst.contents hfirst'.contents hfirst.lines hfirst'.lines hrest
    obtain ⟨path, contents⟩ := f
    obtain ⟨path', contents'⟩ := f'
    obtain rfl : path = path' := String.ext hpath'
    obtain rfl : contents = contents' := String.ext hcontents
    exact ⟨rfl, rfl⟩

theorem RunsOver.not_plain {files files'} (h : RunsOver files files') : ∃ f ∈ files ++ files', ¬Plain f := by
  by_contra hplain
  push Not at hplain
  rw [List.forall_mem_append] at hplain
  have hfed : [] ++ fed files = [] ++ fed files' := h.fed_eq
  exact h.ne (fed_inj hplain.1 hplain.2 (by simp) (by simp) (.inl rfl) (.inl rfl) hfed).2

end Osprey.PublishedSources
