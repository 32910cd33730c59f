import Treeline.Text.Newline

/-!
# Usage and help

What the program says about its own command line.
-/

namespace Treeline.CommandLine

def program : String := "kubectl-walk"

/-- The first lines of the help, which also stand above an error in the command line. -/
def usage : String := Text.joinLines
  ["usage: kubectl-walk [-h] [-n NAMESPACE] [-e ENTRY] [-f FILE] [-o OUTPUT]",
   "                    [-c KUBECONFIG] [--context CONTEXT] [--in-cluster]",
   "                    [--request-timeout REQUEST_TIMEOUT] [-p] [--prune KEY]",
   "                    [-d DEPTH] [--absolute] [--config CONFIG] [-v]",
   "                    [KIND NAME ...]"]

def help : String := usage ++ Text.joinLines
  ["",
   "Flatten nested objects of the YAML.",
   "",
   "positional arguments:",
   "  KIND NAME             Kind (or short name) and name of the object",
   "",
   "options:",
   "  -h, --help            show this help message and exit",
   "  -n NAMESPACE, --namespace NAMESPACE",
   "                        Namespace of kind",
   "  -e ENTRY, --entry ENTRY",
   "                        Entrypoint of an object, e.g. spec.containers[0]",
   "  -f FILE, --file FILE  YAML file to read regardless of kubernetes resource, -",
   "                        for stdin",
   "  -o OUTPUT, --output OUTPUT",
   "                        Write inside file instead of stdout",
   "  -c KUBECONFIG, --kubeconfig KUBECONFIG",
   "                        Cluster Kubeconfig file, $KUBECONFIG or ~/.kube/config",
   "                        by default",
   "  --context CONTEXT     Kubeconfig context to use",
   "  --in-cluster          Use the in-cluster service account config",
   "  --request-timeout REQUEST_TIMEOUT",
   "                        API request timeout in seconds",
   "  -p, --pure            Strip auto-generated fields",
   "  --prune KEY           Skip every subtree under KEY, repeatable",
   "  -d DEPTH, --depth DEPTH",
   "                        Depth of walking, -1 for unlimited",
   "  --absolute            Prefix paths with the entry path",
   "  --config CONFIG       Settings file, $KUBEWALK_CONFIG by default",
   "  -v, --verbose         Print debug messages to stderr",
   "",
   "example:",
   "  $ kubectl walk pod nginx --entry spec.containers",
   "  [0].image: nginx",
   "  [0].imagePullPolicy: Always",
   "  [0].name: nginx-pod",
   "  [0].terminationMessagePath: /dev/termination-log",
   "  [0].terminationMessagePolicy: File",
   "  [0].volumeMounts[0].mountPath: /var/run/secrets/kubernetes.io/serviceaccount",
   "  [0].volumeMounts[0].name: kube-api-access-vvbkx",
   "  [0].volumeMounts[0].readOnly: true"]

end Treeline.CommandLine
