import LogDesk.Config.EnvFile

/-! Where the server is and where the preferences are kept. -/

namespace LogDesk

structure Config where
  server : String := "http://localhost:8080/"
  preferences : String := ".joblog/preferences.json"
  deriving DecidableEq

namespace Config

def serverName : String := "JOBLOG_SERVER_URL"

def preferencesName : String := "JOBLOG_PREFERENCES_PATH"

/-- What a name stands for, unless that is blank. -/
def setting? (lookup : String → Option String) (name : String) : Option String :=
  (lookup name).filter (!Text.allBlank ·)

/-- The configuration that names stand for. A blank value counts as none. -/
def ofLookup (lookup : String → Option String) : Config :=
  let standard : Config := {}
  { server := (setting? lookup serverName).getD standard.server
    preferences := (setting? lookup preferencesName).getD standard.preferences }

/-- The configuration of an environment and a file of settings. The environment wins. -/
def ofEnvironment (environment : List (String × String)) (file : Option (List Char)) : Config :=
  let settings := (file.map (EnvFile.settings environment)).getD []
  ofLookup fun name => (environment.lookup name).orElse fun _ => settings.lookup name

end Config

end LogDesk
