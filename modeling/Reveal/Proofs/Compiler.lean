import Reveal.Journal
import Reveal.Proofs.Catalog
/-!
# A compiler knows the last registrations only

A compiler looks its formats and profiles up by name and asks nothing else of them (`compile_eq`). So
what it writes, refuses and tells is decided by the last registration under each name, however many
there were and in whatever order they came.
-/
namespace Reveal

open Catalog (SameLast)

namespace Formats

/-- The formats that a history leads to. -/
def after (h : History Format) : Formats :=
  h.catalog register empty standard

/-- All registrations of a history of formats. -/
def registered (h : History Format) : List (String × Format) :=
  h.registered Format.name builtin

theorem follows_after (h : History Format) : Catalog.Follows (after h) (registered h) :=
  h.follows_catalog Format.name builtin

end Formats

namespace Profiles

/-- The profiles that a history leads to. -/
def after (h : History Profile) : Profiles :=
  h.catalog register empty standard

/-- All registrations of a history of profiles. -/
def registered (h : History Profile) : List (String × Profile) :=
  h.registered Profile.name builtin

theorem follows_after (h : History Profile) : Catalog.Follows (after h) (registered h) :=
  h.follows_catalog Profile.name builtin

theorem map_name_all (h : History Profile) : (after h).all.map Profile.name = (after h).names :=
  (follows_after h).map_all fun _ => History.nameOf_of_mem_registered Profile.name builtin

theorem mergeSort_all (h : History Profile) {held : List (String × Profile)}
    (hheld : Catalog.Leaves (registered h) held) :
    (held.map Prod.snd).mergeSort (fun p q => Text.byteLe p.name q.name) = (after h).all :=
  (follows_after h).mergeSort_all (fun _ => History.nameOf_of_mem_registered Profile.name builtin) hheld

end Profiles

namespace Compiler

variable {c d : Compiler}

/-- No source, options or profile tells the compilers apart, by what they write or by what they log. -/
structure Alike (c d : Compiler) : Prop where
  compile : ∀ options source, c.compile options source = d.compile options source
  compileBytes : ∀ options bytes, c.compileBytes options bytes = d.compileBytes options bytes
  compileProfile : ∀ profile source, c.compileProfile profile source = d.compileProfile profile source
  compileYaml : ∀ yaml source, c.compileYaml yaml source = d.compileYaml yaml source
  journal : ∀ options source, Journal.ofCompile c options source = Journal.ofCompile d options source

/-- All that compiling takes from the formats is the one that is found under the name. -/
theorem compile_eq (c : Compiler) (options : Options) (source : String) :
    c.compile options source =
      match c.formats.get? options.format with
      | none => .error (.format (.notFound options.format))
      | some format =>
        match parse source with
        | .error fault => .error (.source fault)
        | .ok d => (format.write options.debug d).mapError .format := by
  rw [compile, Catalog.has_eq_isSome]
  unfold Formats.write
  cases c.formats.get? options.format <;> rfl

theorem alike_of_catalogs (hformats : Catalog.Alike c.formats d.formats)
    (hprofiles : Catalog.Alike c.profiles d.profiles) : c.Alike d := by
  have hcompile : ∀ options source, c.compile options source = d.compile options source := by
    intro options source
    rw [compile_eq, compile_eq, hformats.get?]
  refine ⟨hcompile, fun options bytes => ?_, fun profile source => ?_, fun yaml source => ?_,
    fun options source => ?_⟩
  · simp only [compileBytes, hcompile]
  · simp only [compileProfile, hprofiles.get?, hcompile]
  · simp only [compileYaml, hcompile]
  · rw [Journal.ofCompile, Journal.ofCompile, hformats.has]

end Compiler

/-- Catalogs of formats and of profiles give the answers of the last registration under each name, whatever
history led to them, and list the registered names once each in the order of their bytes. Sorting gives the
same lists, in whatever order names and entries were held. Two histories lead to catalogs that answer alike
exactly if the last registrations are the same, and then compilers with these catalogs do all things alike. -/
theorem catalogs_follow_registrations (formats formats' : History Format)
    (profiles profiles' : History Profile) :
    (Catalog.Follows (Formats.after formats) (Formats.registered formats) ∧
      Catalog.Follows (Profiles.after profiles) (Profiles.registered profiles) ∧
      (Profiles.after profiles).all.map Profile.name = (Profiles.after profiles).names ∧
      ∀ held, Catalog.Leaves (Profiles.registered profiles) held →
        (held.map Prod.snd).mergeSort (fun p q => Text.byteLe p.name q.name) = (Profiles.after profiles).all) ∧
    (Catalog.Alike (Formats.after formats) (Formats.after formats') ↔
      SameLast (Formats.registered formats) (Formats.registered formats')) ∧
    (Catalog.Alike (Profiles.after profiles) (Profiles.after profiles') ↔
      SameLast (Profiles.registered profiles) (Profiles.registered profiles')) ∧
    (SameLast (Formats.registered formats) (Formats.registered formats') →
      SameLast (Profiles.registered profiles) (Profiles.registered profiles') →
      Compiler.Alike ⟨Formats.after formats, Profiles.after profiles⟩
        ⟨Formats.after formats', Profiles.after profiles'⟩) := by
  have hformats := (Formats.follows_after formats).alike_iff (Formats.follows_after formats')
  have hprofiles := (Profiles.follows_after profiles).alike_iff (Profiles.follows_after profiles')
  refine ⟨⟨Formats.follows_after formats, Profiles.follows_after profiles, Profiles.map_name_all profiles,
    fun _ => Profiles.mergeSort_all profiles⟩, hformats, hprofiles, fun hsameFormats hsameProfiles => ?_⟩
  exact Compiler.alike_of_catalogs (hformats.2 hsameFormats) (hprofiles.2 hsameProfiles)

/-- In one history a format takes the place of a built-in one, in the other all formats are registered anew.
The profiles come in either order, and one of them replaces another. -/
theorem catalogs_follow_registrations_replaced :
    let formats : History Format := .fromStandard [{ Format.json with name := "html" }]
    let formats' : History Format := .fromEmpty [.json, { Format.json with name := "html" }, .yaml]
    let profiles : History Profile := .fromEmpty [⟨"é", "", {}⟩, ⟨"z", "first", .debugging⟩, ⟨"z", "", {}⟩]
    let profiles' : History Profile := .fromEmpty [⟨"z", "", {}⟩, ⟨"é", "", {}⟩]
    (Formats.after formats).names = ["ast-json", "ast-yaml", "html"] ∧
    (Profiles.after profiles).all = [⟨"z", "", {}⟩, ⟨"é", "", {}⟩] ∧
    SameLast (Formats.registered formats) (Formats.registered formats') ∧
    SameLast (Profiles.registered profiles) (Profiles.registered profiles') ∧
    Compiler.Alike ⟨Formats.after formats, Profiles.after profiles⟩
      ⟨Formats.after formats', Profiles.after profiles'⟩ := by
  intro formats formats' profiles profiles'
  have hformats : SameLast (Formats.registered formats) (Formats.registered formats') := by
    rw [Catalog.sameLast_iff_forall_mem]
    simp [formats, formats', Formats.registered, History.registered, Formats.builtin, Catalog.last?, Format.html,
      Format.json, Format.yaml]
  have hprofiles : SameLast (Profiles.registered profiles) (Profiles.registered profiles') := by decide
  exact ⟨rfl, rfl, hformats, hprofiles,
    (catalogs_follow_registrations formats formats' profiles profiles').2.2.2 hformats hprofiles⟩

end Reveal
