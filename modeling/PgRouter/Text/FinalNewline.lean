import PgRouter.Authdb.FinalNewline
import PgRouter.Config.FinalNewline

/-!
# The final newline

The final newline of a file should carry no meaning. But without it the last octet of a value may be lost
(`final_newline_matters`): where the parser takes a token that is cut short by the end of the file, and only
there (`final_newline_iff`).
-/

namespace PgRouter.Text

open Foundation Wire

/-- A configuration is read in the same way with a newline behind it, without any token that loses octets, if and only
if no token that `parse` takes is cut short by the end of the text. The entries of an authentication database are the
same with a newline behind it, if and only if no hash is. -/
theorem final_newline_iff (text : List Octet) (htext : 0 ∉ text) :
    ((Config.LexesAlike text ∧ ∀ c reload,
        Config.pgrConfigure c (text ++ [newline]) reload = Config.pgrConfigure c text reload) ↔
      ∀ l ∈ Config.asked text, ¬Config.CutShort (Config.inFront l)) ∧
    ((∀ c, Authdb.pgrAuthdb c (text ++ [newline]) = Authdb.pgrAuthdb c text) ↔
      ¬Authdb.CutsHash Authdb.parserInit (Authdb.lexerInit text)) := by
  refine ⟨⟨fun h => (Config.lexesAlike_iff htext).mp h.1, fun h => ⟨(Config.lexesAlike_iff htext).mpr h, ?_⟩⟩, ?_⟩
  · exact Config.pgrConfigure_append htext h
  · exact Authdb.pgrAuthdb_append_iff text

/-- For instance, where the value and the hash are quoted strings. -/
theorem final_newline_iff_quoted :
    (Config.LexesAlike (octets "pidfile \"ab\"") ∧ ∀ c reload,
      Config.pgrConfigure c (octets "pidfile \"ab\"" ++ [newline]) reload =
        Config.pgrConfigure c (octets "pidfile \"ab\"") reload) ∧
    ¬Authdb.CutsHash Authdb.parserInit (Authdb.lexerInit (octets "a md5 \"bc\"")) := by
  have hparse : Authdb.parseText (octets "a md5 \"bc\"" ++ [newline]) = Authdb.parseText (octets "a md5 \"bc\"") := by
    decide +kernel
  refine ⟨(final_newline_iff (octets "pidfile \"ab\"") (by decide)).1.mpr (by decide +kernel),
    (final_newline_iff (octets "a md5 \"bc\"") (by decide)).2.mp fun c => ?_⟩
  rw [Authdb.pgrAuthdb, Authdb.pgrAuthdb, hparse]

/-- Of a name and of a hash with which the file ends, the last octet is lost. -/
theorem final_newline_matters :
    (Config.pgrConfigure .zero (octets "pidfile /xy") false =
        some (0, { Context.zero with startup := { Context.zero.startup with pidfile := some (octets "/x") } }) ∧
      Config.pgrConfigure .zero (octets "pidfile /xy" ++ [newline]) false =
        some (0, { Context.zero with startup := { Context.zero.startup with pidfile := some (octets "/xy") } })) ∧
    Authdb.pgrAuthdb .zero (octets "a md5 bc") = some (0, { Context.zero with authdb := [(octets "a", octets "b")] }) ∧
      Authdb.pgrAuthdb .zero (octets "a md5 bc" ++ [newline]) =
        some (0, { Context.zero with authdb := [(octets "a", octets "bc")] }) :=
  ⟨⟨by decide +kernel, by decide +kernel⟩, by decide +kernel, by decide +kernel⟩

end PgRouter.Text
