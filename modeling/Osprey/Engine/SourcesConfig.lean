/-
`SourcesConfig` (`ast/sources.py`): the configuration beside the rules, put
together from YAML files. The files are sorted by their paths, parsed, and
merged one after the other by `deepmerge.merge_or_raise`.

YAML is a parameter: what a text is parsed to, which keys are texts, and how
a configuration is written. So is the merge of two mappings, with what is used
of it. A configuration is a tree; its places in the files are left out.
-/
import Mathlib.Data.List.Sort
import Mathlib.Data.String.Basic
import Osprey.Engine.Basic
import Osprey.Lib.Dict
import Osprey.Lib.Raise
import Osprey.Lib.Tree

namespace Osprey.ConfigMerge

open Lib

structure Source where
  path : String
  contents : String
  deriving DecidableEq, Repr

inductive Error
  | assertionError (message : String)
  | valueError (message : String)
  | typeError (message : String)
  | yamlError
  | invalidMerge
  deriving DecidableEq, Repr

/-- The merge of a mapping into another by `deepmerge.merge_or_raise`; `none` is an `InvalidMerge`. -/
structure DeepMerge (κ α : Type) where
  merge : List (κ × Tree κ α) → List (κ × Tree κ α) → Option (List (κ × Tree κ α))
  mem_keys : ∀ {base entries merged k}, merge base entries = some merged → k ∈ merged.map Prod.fst →
    k ∈ base.map Prod.fst ∨ k ∈ entries.map Prod.fst
  nodup : ∀ {base entries merged}, merge base entries = some merged → (base.map Prod.fst).Nodup →
    (merged.map Prod.fst).Nodup
  merge_nil : ∀ {entries}, (entries.map Prod.fst).Nodup → merge [] entries = some entries

/-- YAML documents with keys `κ` and scalars `α`. -/
structure Yaml (κ α : Type) where
  /-- `yaml.load` of a file. -/
  load : Source → Except Error (Tree κ α)
  isText : κ → Bool
  /-- `yaml.dump`. -/
  dump : List (κ × Tree κ α) → String
  reprKey : κ → String
  reprSource : Source → String
  deepmerge : DeepMerge κ α

structure SourcesConfig (κ α : Type) where
  sources : List Source
  config : List (κ × Tree κ α)
  /-- `_source`, which is set only if the files were parsed. -/
  source : Option Source

variable {κ α : Type}

/-- The entries of a configuration, which is a dictionary. -/
def asDict : Tree κ α → Except Error (List (κ × Tree κ α))
  | .dict entries => .ok entries
  | _ => .error (.typeError "Config is not a yaml serialized dictionary.")

/-- `sorted(sources, key=lambda source: source.path)`. -/
def sortSources (sources : List Source) : List Source := sources.insertionSort fun a b => a.path ≤ b.path

/-- The checks of `add_config` on the files it is given, with the paths already seen. -/
def checkPaths (yaml : Yaml κ α) : List Source → List String → Except Error Unit
  | [], _ => .ok ()
  | source :: sources, paths =>
    if source.path ∈ paths then .error (.assertionError "A source with that path already exists.")
    else if ¬ ".yaml".toList <:+ source.path.toList then
      .error (.assertionError ("Config " ++ yaml.reprSource source ++ " does not end with .yaml"))
    else checkPaths yaml sources (source.path :: paths)

def checkKeys (yaml : Yaml κ α) (config : List (κ × Tree κ α)) : Except Error Unit :=
  match config.find? (!yaml.isText ·.1) with
  | some e => .error (.typeError ("Config key " ++ yaml.reprKey e.1 ++ " is not a string."))
  | none => .ok ()

/-- Mappings merged one after the other, each into what the ones before gave. -/
def Yaml.mergeAll (yaml : Yaml κ α) (configs : List (List (κ × Tree κ α))) : Option (List (κ × Tree κ α)) :=
  configs.foldlM yaml.deepmerge.merge []

/-- `reduce(deepmerge.merge_or_raise.merge, configs, {})`. -/
def mergeOrRaise (yaml : Yaml κ α) (configs : List (List (κ × Tree κ α))) : Except Error (List (κ × Tree κ α)) :=
  (yaml.mergeAll configs).elim (.error .invalidMerge) .ok

def mergeSources (yaml : Yaml κ α) (sources : List Source) : Except Error (List (κ × Tree κ α)) := do
  let configs ← (← sources.mapM yaml.load).mapM asDict
  let config ← mergeOrRaise yaml configs
  checkKeys yaml config
  return config

/-- `SourcesConfig.__init__`. -/
def SourcesConfig.new (yaml : Yaml κ α) (sources : List Source) : Except Error (SourcesConfig κ α) :=
  if sources = [] then .error (.assertionError "sources can not be empty")
  else if (sortSources sources).any (·.contents = "") then .ok ⟨sortSources sources, [], none⟩
  else
    (mergeSources yaml (sortSources sources)).map fun config =>
      ⟨sortSources sources, config, some ⟨"config.yaml", yaml.dump config⟩⟩

/-- `SourcesBuilder.add_config`, of a builder with the configuration `known`. -/
def addConfig (yaml : Yaml κ α) (known : Option (SourcesConfig κ α)) (sources : List Source) :
    Except Error (SourcesConfig κ α) :=
  if known.isSome then .error (.valueError "A configuration already exists for this builder.")
  else do
    checkPaths yaml sources []
    SourcesConfig.new yaml sources

/-! ## Files that merge -/

def mapping (yaml : Yaml κ α) (source : Source) : List (κ × Tree κ α) :=
  match yaml.load source with
  | .ok (.dict entries) => entries
  | _ => []

def nonEmpty (sources : List Source) : List Source := (sortSources sources).filter (·.contents ≠ "")

/-- A set of config files, each empty or a dictionary with keys that are texts, which do not conflict. -/
structure ConfigFiles (yaml : Yaml κ α) where
  files : List Source
  distinct : (files.map Source.path).Nodup
  extension : ∀ file ∈ files, ".yaml".toList <:+ file.path.toList
  isMapping : ∀ file ∈ files, file.contents ≠ "" →
    yaml.load file = .ok (.dict (mapping yaml file)) ∧ ∀ e ∈ mapping yaml file, yaml.isText e.1
  /-- The deep merge of the files that are not empty. -/
  merged : List (κ × Tree κ α)
  merges : yaml.mergeAll ((nonEmpty files).map (mapping yaml)) = some merged

section Files

variable {yaml : Yaml κ α}

theorem perm_sortSources (sources : List Source) : (sortSources sources).Perm sources := List.perm_insertionSort _ _

theorem sortSources_perm {sources sources'} (hdistinct : (sources.map Source.path).Nodup)
    (h : sources'.Perm sources) : sortSources sources' = sortSources sources := by
  have : Std.Total fun a b : Source => a.path ≤ b.path := ⟨fun a b => le_total _ _⟩
  have : IsTrans Source fun a b => a.path ≤ b.path := ⟨fun _ _ _ => le_trans⟩
  have hsorted : ∀ sources, (sortSources sources).Pairwise fun a b => a.path ≤ b.path :=
    fun _ => List.pairwise_insertionSort _ _
  have hperm := ((perm_sortSources sources').trans h).trans (perm_sortSources sources).symm
  refine hperm.eq_of_pairwise (fun a b ha hb hab hba => ?_) (hsorted sources') (hsorted sources)
  have ha' := h.mem_iff.mp ((perm_sortSources sources').mem_iff.mp ha)
  have hb' := (perm_sortSources sources).mem_iff.mp hb
  exact List.inj_on_of_nodup_map hdistinct ha' hb' (le_antisymm hab hba)

theorem nonEmpty_cons {file} (h : file.contents = "") (sources : List Source) :
    nonEmpty (file :: sources) = nonEmpty sources := by
  have hinsert : ∀ sorted : List Source,
      (sorted.orderedInsert (fun a b => a.path ≤ b.path) file).filter (·.contents ≠ "") =
        sorted.filter (·.contents ≠ "") := by
    intro sorted
    induction sorted with
    | nil => simp [h]
    | cons s sorted ih =>
      rw [List.orderedInsert_cons]
      split
      · rw [List.filter_cons_of_neg (by simpa using h)]
      · rw [List.filter_cons, List.filter_cons, ih]
  exact hinsert (sortSources sources)

theorem checkPaths_ok : ∀ {sources paths},
    (sources.map Source.path).Nodup → (∀ source ∈ sources, source.path ∉ paths) →
      (∀ source ∈ sources, ".yaml".toList <:+ source.path.toList) → checkPaths yaml sources paths = .ok ()
  | [], _, _, _, _ => rfl
  | source :: sources, paths, hdistinct, hnew, hextension => by
    obtain ⟨hhead, htail⟩ := List.nodup_cons.mp hdistinct
    rw [checkPaths, if_neg (hnew source List.mem_cons_self),
      if_neg (not_not.mpr (hextension source List.mem_cons_self))]
    refine checkPaths_ok htail (fun s hs => ?_) fun s hs => hextension s (List.mem_cons_of_mem _ hs)
    rw [List.mem_cons, not_or]
    refine ⟨fun heq => hhead (heq ▸ List.mem_map_of_mem hs), hnew s (List.mem_cons_of_mem _ hs)⟩

/-- What holds of no entries and is kept by every merge holds of what is merged. -/
theorem mergeAll_induction {P : List (κ × Tree κ α) → Prop} {configs merged} (hnil : P [])
    (hmerge : ∀ base, ∀ config ∈ configs, ∀ merged, P base → yaml.deepmerge.merge base config = some merged → P merged)
    (h : yaml.mergeAll configs = some merged) : P merged := by
  have hfold : ∀ (rest : List (List (κ × Tree κ α))) (base : List (κ × Tree κ α)), (∀ c ∈ rest, c ∈ configs) →
      P base → rest.foldlM yaml.deepmerge.merge base = some merged → P merged := by
    intro rest
    induction rest with
    | nil =>
      intro base _ hbase h
      exact Option.some.inj h ▸ hbase
    | cons config rest ih =>
      intro base hmem hbase h
      rw [List.foldlM_cons] at h
      obtain ⟨base', hbase', h⟩ := Option.bind_eq_some_iff.mp h
      obtain ⟨hconfig, hrest⟩ := List.forall_mem_cons.mp hmem
      exact ih base' hrest (hmerge base config hconfig base' hbase hbase') h
  exact hfold configs [] (fun _ hc => hc) hnil h

theorem mem_keys_mergeAll {configs merged} (h : yaml.mergeAll configs = some merged) :
    ∀ k ∈ merged.map Prod.fst, ∃ config ∈ configs, k ∈ config.map Prod.fst := by
  refine mergeAll_induction (P := fun merged => ∀ k ∈ merged.map Prod.fst, ∃ config ∈ configs, k ∈ config.map Prod.fst)
    (List.forall_mem_nil _) (fun base config hconfig merged hbase hmerge k hk => ?_) h
  exact (yaml.deepmerge.mem_keys hmerge hk).elim (hbase k) fun hk => ⟨config, hconfig, hk⟩

theorem nodup_mergeAll {configs merged} (h : yaml.mergeAll configs = some merged) : (merged.map Prod.fst).Nodup :=
  mergeAll_induction (P := fun merged => (merged.map Prod.fst).Nodup) List.nodup_nil
    (fun _ _ _ _ hbase hmerge => yaml.deepmerge.nodup hmerge hbase) h

theorem mergeAll_singleton {config} (h : (config.map Prod.fst).Nodup) : yaml.mergeAll [config] = some config := by
  rw [Yaml.mergeAll, List.foldlM_cons, yaml.deepmerge.merge_nil h]
  rfl

theorem mergeSources_eq {sources merged}
    (hmapping : ∀ file ∈ sources, yaml.load file = .ok (.dict (mapping yaml file)) ∧
      ∀ e ∈ mapping yaml file, yaml.isText e.1)
    (hmerged : yaml.mergeAll (sources.map (mapping yaml)) = some merged) :
    mergeSources yaml sources = .ok merged := by
  have hkeys : checkKeys yaml merged = .ok () := by
    have htext : merged.find? (!yaml.isText ·.1) = none := by
      rw [List.find?_eq_none]
      intro e he
      obtain ⟨config, hconfig, hkey⟩ := mem_keys_mergeAll hmerged e.1 (List.mem_map_of_mem he)
      obtain ⟨file, hfile, rfl⟩ := List.mem_map.mp hconfig
      obtain ⟨e', he', hkey'⟩ := List.mem_map.mp hkey
      simpa [hkey'] using (hmapping file hfile).2 e' he'
    rw [checkKeys, htext]
  have hmerge : mergeOrRaise yaml (sources.map (mapping yaml)) = .ok merged := by
    rw [mergeOrRaise, hmerged]
    rfl
  have hload : sources.mapM yaml.load = .ok (sources.map fun file => .dict (mapping yaml file)) :=
    mapM_ok fun file hfile => (hmapping file hfile).1
  have hconfigs : (sources.map fun file => Tree.dict (mapping yaml file)).mapM asDict =
      .ok (sources.map (mapping yaml)) := by
    rw [List.mapM_map]
    exact mapM_ok fun _ _ => rfl
  have hchecked : (checkKeys yaml merged >>= fun _ => pure merged) = .ok merged := bind_eq_ok.mpr ⟨(), hkeys, rfl⟩
  exact bind_eq_ok.mpr ⟨_, hload, bind_eq_ok.mpr ⟨_, hconfigs, bind_eq_ok.mpr ⟨_, hmerge, hchecked⟩⟩⟩

/-- A configuration is empty and without a source if one of its files is empty; else it is the merge of its files,
with the source that the merge is dumped to. -/
theorem SourcesConfig.new_cases {sources c} (h : SourcesConfig.new yaml sources = .ok c) :
    c.sources = sortSources sources ∧
      (((∃ file ∈ c.sources, file.contents = "") ∧ c.config = [] ∧ c.source = none) ∨
        ((∀ file ∈ c.sources, file.contents ≠ "") ∧ mergeSources yaml c.sources = .ok c.config ∧
          c.source = some ⟨"config.yaml", yaml.dump c.config⟩)) := by
  unfold SourcesConfig.new at h
  split at h
  · cases h
  · split at h
    · rename_i hempty
      cases h
      exact ⟨rfl, .inl ⟨by simpa using hempty, rfl, rfl⟩⟩
    · rename_i hempty
      obtain ⟨config, hmerge, rfl⟩ := map_eq_ok.mp h
      exact ⟨rfl, .inr ⟨by simpa using hempty, hmerge, rfl⟩⟩

namespace ConfigFiles

/-- The configuration that `add_config` of a new builder gives, in whatever order the files come: none without files,
an empty one if a file is empty, and the merge otherwise. -/
theorem addConfig_eq (F : ConfigFiles yaml) {files} (hperm : files.Perm F.files) :
    (addConfig yaml none files).map SourcesConfig.config =
      if F.files = [] then .error (.assertionError "sources can not be empty")
      else if ∃ file ∈ F.files, file.contents = "" then .ok []
      else .ok F.merged := by
  have hcheck : checkPaths yaml files [] = .ok () := by
    refine checkPaths_ok ((hperm.map _).nodup_iff.mpr F.distinct) (fun _ _ => List.not_mem_nil) fun file hfile => ?_
    exact F.extension file (hperm.mem_iff.mp hfile)
  have hnew : addConfig yaml none files = SourcesConfig.new yaml files := by
    rw [addConfig, if_neg (by simp), hcheck]
    rfl
  have hsort := sortSources_perm F.distinct hperm
  rw [hnew, SourcesConfig.new, hsort]
  by_cases hnil : F.files = []
  · rw [if_pos hnil, if_pos (List.perm_nil.mp (hnil ▸ hperm))]
    rfl
  have hfiles : files ≠ [] := by
    rintro rfl
    exact hnil (List.nil_perm.mp hperm)
  rw [if_neg hnil, if_neg hfiles]
  by_cases hempty : ∃ file ∈ F.files, file.contents = ""
  · have hany : (sortSources F.files).any (·.contents = "") = true := by
      obtain ⟨file, hfile, hcontents⟩ := hempty
      exact List.any_eq_true.mpr ⟨file, (perm_sortSources _).mem_iff.mpr hfile, by simpa using hcontents⟩
    rw [if_pos hempty, if_pos hany]
    rfl
  · have hall : ∀ file ∈ sortSources F.files, file.contents ≠ "" := fun file hfile h =>
      hempty ⟨file, (perm_sortSources _).mem_iff.mp hfile, h⟩
    have hany : ¬ (sortSources F.files).any (·.contents = "") = true := by
      simpa using hall
    have hnonEmpty : nonEmpty F.files = sortSources F.files :=
      List.filter_eq_self.mpr fun file hfile => by simpa using hall file hfile
    have hmerge : mergeSources yaml (sortSources F.files) = .ok F.merged :=
      mergeSources_eq (fun file hfile => F.isMapping file ((perm_sortSources _).mem_iff.mp hfile) (hall file hfile))
        (hnonEmpty ▸ F.merges)
    rw [if_neg hempty, if_neg hany, hmerge]
    rfl

def addEmpty (F : ConfigFiles yaml) (file : Source) (hcontents : file.contents = "")
    (hpath : file.path ∉ F.files.map Source.path) (hextension : ".yaml".toList <:+ file.path.toList) :
    ConfigFiles yaml where
  files := file :: F.files
  distinct := List.nodup_cons.mpr ⟨hpath, F.distinct⟩
  extension := List.forall_mem_cons.mpr ⟨hextension, F.extension⟩
  isMapping := List.forall_mem_cons.mpr ⟨fun h => absurd hcontents h, F.isMapping⟩
  merged := F.merged
  merges := nonEmpty_cons hcontents F.files ▸ F.merges

theorem addConfig_addEmpty (F : ConfigFiles yaml) {file} (hcontents : file.contents = "")
    (hpath : file.path ∉ F.files.map Source.path) (hextension : ".yaml".toList <:+ file.path.toList) :
    (addConfig yaml none (file :: F.files)).map SourcesConfig.config = .ok [] := by
  have hnil : (F.addEmpty file hcontents hpath hextension).files ≠ [] := List.cons_ne_nil _ _
  have hempty : ∃ f ∈ (F.addEmpty file hcontents hpath hextension).files, f.contents = "" :=
    ⟨file, List.mem_cons_self, hcontents⟩
  have hadded := (F.addEmpty file hcontents hpath hextension).addConfig_eq (.refl _)
  rw [if_neg hnil, if_pos hempty] at hadded
  exact hadded

end ConfigFiles

/-- **When config files are merged completely.** In whatever order the files come, the configuration is the merge of
those that are not empty exactly if there is a file, and none is empty or the merge has no entry. A further file that is
empty leaves the configuration as it is exactly if there is a file, and one is empty already or the merge has no
entry. -/
theorem config_merged_iff (F : ConfigFiles yaml) :
    ((∀ files : List Source, files.Perm F.files →
        (addConfig yaml none files).map SourcesConfig.config = .ok F.merged) ↔
      F.files ≠ [] ∧ ((∀ file ∈ F.files, file.contents ≠ "") ∨ F.merged = [])) ∧
    ∀ file : Source, file.contents = "" → file.path ∉ F.files.map Source.path →
      ".yaml".toList <:+ file.path.toList →
        ((addConfig yaml none (file :: F.files)).map SourcesConfig.config =
            (addConfig yaml none F.files).map SourcesConfig.config ↔
          F.files ≠ [] ∧ ((∃ file ∈ F.files, file.contents = "") ∨ F.merged = [])) := by
  constructor
  · constructor
    · intro h
      have hconfig := (F.addConfig_eq (.refl _)).symm.trans (h F.files (.refl _))
      split at hconfig
      · cases hconfig
      · rename_i hnil
        refine ⟨hnil, ?_⟩
        split at hconfig
        · exact .inr (Except.ok.inj hconfig).symm
        · rename_i hempty
          exact .inl fun file hfile hcontents => hempty ⟨file, hfile, hcontents⟩
    · rintro ⟨hnil, hmerged⟩ files hperm
      rw [F.addConfig_eq hperm, if_neg hnil]
      split
      · rename_i hempty
        obtain ⟨file, hfile, hcontents⟩ := hempty
        rw [hmerged.resolve_left fun hall => hall file hfile hcontents]
      · rfl
  · intro file hcontents hpath hextension
    rw [F.addConfig_addEmpty hcontents hpath hextension, F.addConfig_eq (.refl _)]
    by_cases hnil : F.files = []
    · rw [if_pos hnil]
      exact iff_of_false (fun h => (by cases h)) fun h => h.1 hnil
    · rw [if_neg hnil]
      by_cases hempty : ∃ file ∈ F.files, file.contents = ""
      · rw [if_pos hempty]
        exact iff_of_true rfl ⟨hnil, .inl hempty⟩
      · rw [if_neg hempty, Except.ok.injEq, eq_comm]
        exact ⟨fun h => ⟨hnil, .inr h⟩, fun h => h.2.resolve_left hempty⟩

/-- A merge in which the entries of the second mapping replace those of the first. -/
def DeepMerge.replacing [DecidableEq κ] : DeepMerge κ α where
  merge base entries := some (Dict.ofList (base ++ entries)).entries
  mem_keys {base entries merged k} h hk := by
    cases h
    have hmem := Dict.isSome_get?_ofList.mp (Dict.isSome_get?.mpr hk)
    rwa [List.map_append, List.mem_append] at hmem
  nodup {base entries merged} h _ := by
    cases h
    exact (Dict.ofList (base ++ entries)).nodup
  merge_nil h := congrArg (some ∘ Dict.entries) (Dict.ofList_entries ⟨_, h⟩)

/-- An empty file beside another: the other one is not read. -/
theorem empty_file_drops_config :
    ∃ (yaml : Yaml String Nat) (F : ConfigFiles yaml),
      (∃ e ∈ F.merged, e.1 = "labels") ∧ (addConfig yaml none F.files).map SourcesConfig.config = .ok [] := by
  let yaml : Yaml String Nat :=
    ⟨fun _ => .ok (.dict [("labels", .leaf 0)]), fun _ => true, fun _ => "", id, Source.path, .replacing⟩
  let F : ConfigFiles yaml :=
    { files := [⟨"config.yaml", "labels: 0"⟩, ⟨"config/empty.yaml", ""⟩]
      distinct := by decide
      extension := by decide
      isMapping := fun _ _ _ => ⟨rfl, fun _ _ => rfl⟩
      merged := [("labels", .leaf 0)]
      merges := rfl }
  exact ⟨yaml, F, ⟨_, List.mem_cons_self, rfl⟩, rfl⟩

end Files

end Osprey.ConfigMerge
